import Rudp.Lib.Slice
import Rudp.SndFrame

/-!
# Integrity of the received stream

A peer sends the stream `S`: every segment carries a slice of `S` at its true position, and FIN only
at the end of `S`. Segments arrive in any order, any number of times and cut in any way, between
timer ticks, `tcp_recved` calls and a recv callback that may refuse data.

Results:
* `Receiving.tcpReceive`: `tcp_receive` appends to what has been delivered the bytes of `S` that
  come next.
* `StreamInv.step`: what one operation preserves.
* `stream_integrity`: along every run whose steps are `StreamSafe`, the application has been given a
  prefix of `S`, and `rcv_nxt` counts what it was given and what is parked in `refused_data`.
* `stream_integrity_fails`: a run with a step that is not `StreamSafe`.
-/

namespace Rudp

open Serial

variable {W : Type}

/-! ## What the application has been given -/

/-- The callbacks of a log and what they returned. -/
def events (log : List Out) : List (Event × Err) :=
  log.filterMap fun
    | .event e ret => some (e, ret)
    | _ => none

/-- The data that the recv callback has accepted. -/
def accepted (es : List (Event × Err)) : List Byte :=
  es.flatMap fun
    | (.recv data, .ok) => data
    | _ => []

/-- How often EOF was signalled. -/
def eofs (es : List (Event × Err)) : ℕ := es.countP fun e => decide (e.1 = .closed)

/-- The data parked in `refused_data`. -/
def parked (refusedData : Option (List Pbuf × Bool)) : List Byte :=
  (refusedData.map fun r => bytes r.1).getD []

/-- The FIN of the peer has been consumed. -/
def TcpState.finTaken (state : TcpState) : Bool := decide (TcpState.CLOSE_WAIT.num ≤ state.num)

/-- The application has been given a prefix of `S`, `rcv_nxt` counts that and what is parked, and EOF
    comes once, behind all of `S`. -/
structure StreamIntact (S : List Byte) (r₀ : U32) (s : St W) : Prop where
  acc_prefix : accepted (events s.trace) <+: S
  rcvNxt_eq : s.pcb.rcvNxt = r₀ + u32 ((accepted (events s.trace)).length +
    (parked s.pcb.refusedData).length + s.pcb.state.finTaken.toNat)
  eof_once : eofs (events s.trace) ≤ 1
  eof_last : ∀ pre ret post, events s.trace = pre ++ (.closed, ret) :: post → accepted pre = S

/-! ## The segments of the peer -/

/-- The segment `c` at position `p`, seen from index `k` of `S`, carries what `S` holds there. -/
structure Slice (S : List Byte) (k : ℕ) (p : ℤ) (c : TcpSeg) : Prop where
  slice : IsSlice S (k + p) (bytes c.p)
  fin_end : c.tcphdr.flags.fin = true → k + p + c.len = S.length
  syn : c.tcphdr.flags.syn = false

/-- The peer sends the slice of `S` from index `k` on, at its true sequence number. A segment that
    occupies no sequence number may have any. -/
structure Honest (S : List Byte) (r₀ : U32) (k : ℕ) (seg : InSegment) : Prop where
  seqno : 0 < seg.tcplen → seg.seqno = r₀ + u32 k
  slice : 0 < seg.tcplen → IsSlice S k (bytes seg.p)
  fin_end : seg.flags.fin = true → k + totLen seg.p = S.length
  syn : seg.flags.syn = false
  rst : seg.flags.rst = false

theorem slice_cutClosed (S : List Byte) (k : ℕ) : CutClosed (Slice S k) := by
  intro p c m h hf h0 hm
  refine ⟨?_, fun hf' => ?_, h.syn⟩
  · show IsSlice S _ (bytes (pbufRealloc c.p m))
    rw [bytes_pbufRealloc]
    exact h.slice.take m
  · rw [cut_hdr, hf] at hf'
    cases hf'

theorem slice_shifts (S : List Byte) (k : ℕ) : Shifts fun n => Slice S (k + n) := by
  intro n t p c h
  have e : ((k + (n + t) : ℕ) : ℤ) + (p - t) = ((k + n : ℕ) : ℤ) + p := by push_cast; omega
  refine ⟨?_, fun hf => ?_, h.syn⟩
  · rw [e]
    exact h.slice
  · rw [e]
    exact h.fin_end hf

/-- Segments taken in sequence carry the bytes of `S` that come next, and only at the end a FIN. -/
theorem InSeq.stream {S : List Byte} {k n : ℕ} {segs : List TcpSeg} (hk : k + n ≤ S.length)
    (h : InSeq (fun n => Slice S (k + n)) n segs) :
    ∃ m, seqLen segs = m + (anyFin segs).toNat ∧ k + n + m ≤ S.length ∧
      S.take (k + n) ++ (segs.flatMap fun c => bytes c.p) = S.take (k + n + m) ∧
      (anyFin segs = true → k + n + m = S.length) := by
  induction segs generalizing n with
  | nil => exact ⟨0, rfl, hk, by simp, by simp⟩
  | cons c segs ih =>
    obtain ⟨hlen, hs, h⟩ := h
    have hle := hs.slice.le
    have hsl : IsSlice S ((k + n : ℕ) : ℤ) (bytes c.p) := by
      have := hs.slice
      rwa [add_zero] at this
    have hlb : (bytes c.p).length = c.len := by rw [length_bytes, hlen]
    have htake := hsl.take_append
    rw [hlb] at htake hle
    have htl := c.tcplen_eq
    rw [hs.syn, Bool.or_false] at htl
    cases hf : c.tcphdr.flags.fin with
    | false =>
      rw [hf] at htl
      simp only [Bool.false_eq_true, if_false, add_zero] at htl
      rw [htl] at h
      obtain ⟨m, e1, e2, e3, e4⟩ := ih (by omega) h
      refine ⟨c.len + m, ?_, by omega, ?_, ?_⟩
      · rw [seqLen_cons, anyFin_cons, hf, e1, htl, Bool.false_or]
        omega
      · have e5 : k + n + c.len = k + (n + c.len) := by omega
        have e6 : k + n + (c.len + m) = k + (n + c.len) + m := by omega
        rw [List.flatMap_cons, ← List.append_assoc, htake, e5, e6, e3]
      · rw [anyFin_cons, hf, Bool.false_or]
        intro ha
        have := e4 ha
        omega
    | true =>
      have hend := hs.fin_end hf
      rw [hf] at htl
      simp only [if_true] at htl
      cases segs with
      | nil =>
        refine ⟨c.len, by simp [hf, htl], by omega, by simpa using htake, fun _ => by omega⟩
      | cons d segs =>
        have := h.2.1.slice.le
        push_cast at this
        omega

/-! ## `tcp_receive` -/

/-- The receiving side after the first `k` bytes of `S`: they have been delivered (`D`) or wait in
    `recv_data`. `fin` says that the FIN has been consumed. -/
structure Receiving (S : List Byte) (r₀ : U32) (D : List Byte) (k : ℕ) (fin : Bool)
    (v : RcvView W) : Prop where
  le : k ≤ S.length
  data : D ++ v.data = S.take k
  rcvNxt : v.rcvNxt = r₀ + u32 (k + fin.toNat)
  rcvWnd : v.rcvWnd ≤ TCP_WND
  fin_end : fin = true → k = S.length
  chain : fin = false → OosChain (Slice S k) v.rcvNxt (-1) v.ooseq

/-- The tests on the sequence number of the segment can only succeed because of where it truly lies:
    less than half the sequence space away from the `k` bytes received. -/
def Unaliased (pcb : Pcb) (k pos : ℕ) (seg : InSegment) : Prop :=
  0 < seg.tcplen → overlaps pcb.rcvNxt seg ∨ inWindow pcb seg.seqno →
    k < pos + 2147483648 ∧ pos < k + 2147483647

variable {S : List Byte} {r₀ : U32} {D : List Byte} {k : ℕ} {fin : Bool}

/-- The distance of an honest segment from the receive position. -/
theorem Honest.dist_eq {pos : ℕ} {seg : InSegment} (h : Honest S r₀ pos seg)
    (hl : 0 < seg.tcplen) (h0 : k < pos + 2147483648) (h1 : pos < k + 2147483647) : dist seg.seqno (r₀ + u32 k) = (pos : ℤ) - k := by
  have e : seg.seqno = r₀ + u32 k + BitVec.ofInt 32 ((pos : ℤ) - k) := by
    rw [h.seqno hl, BitVec.add_assoc]
    congr 1
    unfold u32
    rw [← BitVec.ofInt_natCast, ← BitVec.ofInt_natCast, ← BitVec.ofInt_add]
    congr 1
    omega
  rw [e, dist_add_ofInt (by decide) _ _ _ (inHalf_32.mpr (by rw [dist_self]; omega)), dist_self,
    zero_add]

/-- The segment behind its first edge lies at or behind the receive position and carries its
    slice. -/
theorem Honest.firstEdge {pos : ℕ} {seg : InSegment} {pcb : Pcb} {c : TcpSeg}
    (hs : Honest S r₀ pos seg) (hr : pcb.rcvNxt = r₀ + u32 k) (hw : pcb.rcvWnd ≤ TCP_WND)
    (hu : Unaliased pcb k pos seg) (hl : 0 < seg.tcplen)
    (h : tcpReceiveFirstEdge pcb.rcvNxt seg = .ok c) (hin : inWindow pcb c.tcphdr.seqno) :
    c.Wf ∧ c.len ≤ 65507 ∧ 0 ≤ c.pos pcb.rcvNxt ∧ c.pos pcb.rcvNxt < pcb.rcvWnd ∧
      Slice S k (c.pos pcb.rcvNxt) c := by
  have hwl : pcb.rcvWnd ≤ 65535 := hw.trans (by decide)
  have hb := seg.bound
  have htl : seg.tcplen = seg.inseg.tcplen := rfl
  have htl' := seg.inseg.tcplen_le
  have hsl := (hs.slice hl).le
  rw [length_bytes] at hsl
  have hlen : seg.inseg.len = totLen seg.p := rfl
  unfold tcpReceiveFirstEdge at h
  split at h
  · next ho =>
    obtain ⟨u1, u2⟩ := hu hl (.inl ho)
    have hd := hs.dist_eq hl u1 u2
    rw [← hr] at hd
    obtain ⟨o1, o2⟩ := (overlap_iff (by omega) hl (by omega)).mp ho
    have hp : seg.inseg.pos pcb.rcvNxt = (pos : ℤ) - k := hd
    obtain ⟨e1, e2, e3, e4⟩ := trimFront_spec hlen (by omega) (by omega) (by omega) (by omega) h
    have hc : c.tcphdr.seqno = pcb.rcvNxt := by rw [e1]
    have hc0 := pos_eq_zero hc
    have hw0 := ((inWindow_iff hwl (.inl (by rw [hc, dist_self]; omega))).mp hin).2
    rw [hc, dist_self] at hw0
    have hflags : c.tcphdr.flags = seg.flags := by rw [e1]; rfl
    have hct : c.tcplen = c.len + seg.flags.finSyn := by rw [← hflags]; rfl
    have hst : seg.tcplen = totLen seg.p + seg.flags.finSyn := rfl
    refine ⟨⟨e3, by omega, by omega⟩, by omega, by omega, by omega, ?_, ?_, ?_⟩
    · have hm : (-seg.inseg.pos pcb.rcvNxt).toNat ≤ (bytes seg.p).length := by
        rw [length_bytes]
        omega
      have := (hs.slice hl).drop hm
      rw [hc0, e4]
      rwa [show (pos : ℤ) + ((-seg.inseg.pos pcb.rcvNxt).toNat : ℕ) = k + 0 by omega] at this
    · rw [hflags, hc0]
      intro hf
      have := hs.fin_end hf
      omega
    · rw [hflags]
      exact hs.syn
  · cases h
    obtain ⟨u1, u2⟩ := hu hl (.inr hin)
    have hd : dist seg.inseg.tcphdr.seqno (r₀ + u32 k) = _ := hs.dist_eq hl u1 u2
    rw [← hr] at hd
    have hp : seg.inseg.pos pcb.rcvNxt = (pos : ℤ) - k := hd
    obtain ⟨i1, i2⟩ := (inWindow_iff hwl (.inl (by rw [hd]; omega))).mp hin
    refine ⟨⟨hlen, by omega, by omega⟩, by omega, i1, i2, ?_, ?_, hs.syn⟩
    · rw [hp, show (k : ℤ) + (pos - k) = pos by omega]
      exact hs.slice hl
    · intro hf
      have := hs.fin_end hf
      omega

/-- What the trimmings make of an in-sequence segment is a slice. -/
theorem slice_merged {w : ℕ} {r : U32} {q q' : List TcpSeg} {c c₁ c' : TcpSeg} (h : Slice S k 0 c)
    (hc : c.len = totLen c.p) (hq : ∀ d ∈ q, Slice S k (d.pos r) d) (ht : TrimmedTo w c c₁)
    (hm : Merged r c₁ q c' q') : Slice S k 0 c' := by
  have h₁ : Slice S k 0 c₁ ∧ c₁.len = totLen c₁.p := by
    rcases ht with ⟨rfl, -⟩ | ⟨m, hm, rfl, -, -⟩
    · exact ⟨h, hc⟩
    · refine ⟨⟨?_, by simp [TcpSeg.clearFin], h.syn⟩, ?_⟩
      · show IsSlice S _ (bytes (pbufRealloc c.p m))
        rw [bytes_pbufRealloc]
        exact h.slice.take m
      · show m = totLen (pbufRealloc c.p m)
        rw [totLen_pbufRealloc]
        omega
  obtain ⟨h₁, hl⟩ := h₁
  cases hm with
  | same => exact h₁
  | fin d hd hdf hle hf hs =>
    refine ⟨h₁.slice, fun _ => ?_, h₁.syn⟩
    have := (hq d hd).fin_end hdf
    have hle' := h₁.slice.le
    rw [length_bytes, ← hl] at hle'
    rw [setFin_len]
    omega
  | cut m hm hf hs =>
    refine ⟨?_, fun hf' => ?_, h₁.syn⟩
    · show IsSlice S _ (bytes (pbufRealloc c₁.p m))
      rw [bytes_pbufRealloc]
      exact h₁.slice.take m
    · rw [cut_hdr, hf] at hf'
      cases hf'

/-- The data part of `tcp_receive` on a segment of the peer. -/
theorem Receiving.tcpReceiveData {s s' : St W} {pos : ℕ} {seg : InSegment}
    (hR : Receiving S r₀ D k fin s.rcvView) (hfin : fin = s.pcb.state.finTaken)
    (hgot : s.recvGotFin = false) (hs : Honest S r₀ pos seg)
    (hu : s.pcb.state.finTaken = false → Unaliased s.pcb k pos seg)
    (h : tcpReceiveData s seg = .ok s') :
    ∃ k', Receiving S r₀ D k' (fin || s'.recvGotFin) s'.rcvView ∧
      (s'.recvGotFin = true → fin = false ∧ 0 < seg.tcplen) ∧
      (s'.recvData ≠ none → s.recvData ≠ none ∨ fin = false) ∧
      (s'.pcb.state = s.pcb.state ∨
        (s.pcb.state = .ESTABLISHED ∧ s'.pcb.state = .CLOSE_WAIT ∧ s'.recvGotFin = true)) := by
  have hw := hR.rcvWnd
  have hwl : s.pcb.rcvWnd ≤ 65535 := hw.trans (by decide)
  rcases tcpReceiveData_cases h with h | ⟨hl, hst, c, s₁, hc, hv, hin, h⟩
  · have e1 : s'.recvGotFin = s.recvGotFin := congrArg RcvView.recvGotFin h
    have e3 : s'.pcb.state = s.pcb.state := congrArg RcvView.state h
    have e2 : s'.recvData = s.recvData := congrArg RcvView.recvData h
    refine ⟨k, ?_, by simp [e1, hgot], fun hne => .inl (e2 ▸ hne), .inl e3⟩
    rw [h, e1, hgot, Bool.or_false]
    exact hR
  · have hf : s.pcb.state.finTaken = false := by
      simp only [TcpState.finTaken, decide_eq_false_iff_not]
      omega
    rw [hf] at hfin
    subst hfin
    have hr : s.pcb.rcvNxt = r₀ + u32 k := hR.rcvNxt.trans (by simp)
    obtain ⟨c1, c2, c3, c4, c5⟩ := hs.firstEdge hr hw (hu hf) hl hc hin
    have hch := hR.chain rfl
    rcases h with ⟨heq, h⟩ | ⟨hne, q', hq', h⟩
    · have w1 : s₁.pcb.rcvNxt = s.pcb.rcvNxt := congrArg RcvView.rcvNxt hv
      have w2 : s₁.pcb.rcvWnd = s.pcb.rcvWnd := congrArg RcvView.rcvWnd hv
      have w3 : s₁.pcb.ooseq = s.pcb.ooseq := congrArg RcvView.ooseq hv
      have w4 : s₁.recvGotFin = s.recvGotFin := congrArg RcvView.recvGotFin hv
      have w5 : s₁.recvData = s.recvData := congrArg RcvView.recvData hv
      have w6 : s₁.pcb.state = s.pcb.state := congrArg RcvView.state hv
      rw [pos_eq_zero heq] at c3 c4 c5
      have hall := hch.forall
      obtain ⟨c', segs, -, -, t⟩ := tcpReceiveInseq_took (n := 0) (slice_shifts S k) (by omega)
        (by omega) (by rw [w1, w3]; exact hch) c1 c2 (by rw [w1]; exact heq)
        (by simp [c5.syn])
        (fun c₁ c' q' ht hm => slice_merged c5 c1.len_eq
          (fun d hd => by rw [w3] at hd; rw [w1]; exact (hall d hd).1.holds) ht hm) h
      obtain ⟨m, m1, m2, m3, m4⟩ := t.inSeq.stream hR.le
      simp only [Nat.add_zero] at m2 m3 m4
      have g := t.gotFin
      rw [w4, hgot, Bool.false_or] at g
      have hd₁ : s₁.rcvView.data = s.rcvView.data := congrArg RcvView.data hv
      have hn := t.rcvNxt
      have hwn := t.rcvWnd
      have hst' := t.state
      have hch' := t.chain
      rw [m1] at hn hch'
      rw [w6, ← g] at hst'
      rw [← g] at hn hch'
      refine ⟨k + m, ⟨m2, ?_, ?_, ?_, ?_, ?_⟩, fun _ => ⟨rfl, hl⟩, fun _ => .inr rfl,
        hst'⟩
      · rw [t.data, hd₁, ← List.append_assoc, hR.data, m3]
      · show s'.pcb.rcvNxt = _
        rw [hn, w1, hr, Bool.false_or, BitVec.add_assoc, ← u32_add, ← Nat.add_assoc]
      · show s'.pcb.rcvWnd ≤ _
        have : s.pcb.rcvWnd ≤ TCP_WND := hw
        omega
      · rw [Bool.false_or, g]
        exact m4
      · rw [Bool.false_or]
        intro hg
        rw [hg] at hch'
        have := hch'.mono le_rfl
        simp only [Bool.toNat_false, add_zero, Nat.zero_add] at this
        exact this
    · have e1 : s'.recvGotFin = s.recvGotFin := congrArg RcvView.recvGotFin h
      have e3 : s'.pcb.state = s.pcb.state := congrArg RcvView.state h
      rw [h, e1, hgot]
      refine ⟨k, ⟨hR.le, hR.data, hR.rcvNxt, hR.rcvWnd, hR.fin_end, fun _ => ?_⟩, by simp,
        fun _ => .inr rfl, .inl e3⟩
      show OosChain _ s.pcb.rcvNxt _ q'
      refine (oosInsert_chain (slice_cutClosed S k) le_rfl hch c1 (by omega) c3 c4 hwl ?_
        (fun _ => c5) ?_ hq')
      · intro pre rest hpr _ _
        refine ⟨c5, fun hf => ?_⟩
        rintro ⟨d, hd, hdf, hle⟩
        have hds := ((hch.forall d (by rw [hpr]; simp [hd])).1.holds).fin_end hdf
        have hle' := c5.slice.le
        rw [length_bytes, ← c1.len_eq] at hle'
        have hds' : (k : ℤ) + d.pos s.pcb.rcvNxt + d.len = S.length := hds
        exact ⟨c5.slice, fun _ => by rw [setFin_len]; omega, c5.syn⟩
      · intro _ hle
        refine ⟨?_, by simp [windowCut, TcpSeg.clearFin], c5.syn⟩
        show IsSlice S _ (bytes (pbufRealloc c.p _))
        rw [bytes_pbufRealloc]
        exact c5.slice.take _

theorem Receiving.tcpReceive {s s' : St W} {pos : ℕ} {seg : InSegment}
    (hR : Receiving S r₀ D k fin s.rcvView) (hfin : fin = s.pcb.state.finTaken)
    (hgot : s.recvGotFin = false) (hs : Honest S r₀ pos seg)
    (hu : s.pcb.state.finTaken = false → Unaliased s.pcb k pos seg)
    (h : Rudp.tcpReceive s seg = .ok s') :
    ∃ k', Receiving S r₀ D k' (fin || s'.recvGotFin) s'.rcvView ∧
      (s'.recvGotFin = true → fin = false ∧ 0 < seg.tcplen) ∧
      (s'.recvData ≠ none → s.recvData ≠ none ∨ fin = false) ∧
      (s'.pcb.state = s.pcb.state ∨
        (s.pcb.state = .ESTABLISHED ∧ s'.pcb.state = .CLOSE_WAIT ∧ s'.recvGotFin = true)) := by
  obtain ⟨-, s₁, -, hv, h⟩ := tcpReceive_parts h
  have e1 : s₁.pcb.rcvNxt = s.pcb.rcvNxt := congrArg RcvView.rcvNxt hv
  have e2 : s₁.pcb.rcvWnd = s.pcb.rcvWnd := congrArg RcvView.rcvWnd hv
  have e3 : s₁.pcb.state = s.pcb.state := congrArg RcvView.state hv
  have e4 : s₁.recvGotFin = s.recvGotFin := congrArg RcvView.recvGotFin hv
  have e5 : s₁.recvData = s.recvData := congrArg RcvView.recvData hv
  rw [← e3] at hfin hu ⊢
  rw [← e5]
  refine Receiving.tcpReceiveData (hv ▸ hR) hfin (e4.trans hgot) hs (fun hf => ?_) h
  have := hu hf
  unfold Unaliased inWindow at this ⊢
  rwa [e1, e2]

/-! ## The application -/

/-- What the application does in a callback: it calls `tcp_recved`, and changes what it keeps. -/
def ReaderCall (s s' : St W) : Prop :=
  (∃ w, s' = { s with world := w }) ∨ ∃ len ≤ 65535, tcpRecved s len = .ok s'

/-- An application that reads. Each callback may return any value but `ERR_ABRT`, so the recv
    callback may refuse data. -/
def ReaderApp (app : App W) : Prop :=
  ∀ e s ret s', app e s = .ok (ret, s') → ret ≠ .abrt ∧ Relation.ReflTransGen ReaderCall s s'

/-- The window and the state of the application have changed. -/
def RcvView.reread (v : RcvView W) (w : ℕ) (x : W) : RcvView W := { v with rcvWnd := w, world := x }

theorem rcvView_tcpRecved {s s' : St W} {len : ℕ} (h : tcpRecved s len = .ok s') :
    ∃ w ≤ TCP_WND, s'.rcvView = { s.rcvView with rcvWnd := w } := by
  obtain ⟨w, hw, h⟩ := Run.bind_eq_ok.mp h
  obtain ⟨⟨n, pcb⟩, hp, h⟩ := Run.bind_eq_ok.mp h
  obtain ⟨aw, rfl⟩ := tcpUpdateRcvAnnWnd_ok hp
  have hv : (({ s with pcb := { s.pcb with rcvWnd := w, rcvAnnWnd := aw } } : St W).emit
      (.recved len s.pcb)).rcvView = { s.rcvView with rcvWnd := w } :=
    (rcvView_emit_packet _ rfl).trans rfl
  refine ⟨w, ?_, ?_⟩
  · unfold rcvWndRecved at hw
    dsimp only at hw
    split_ifs at hw <;> cases hw
    · exact le_rfl
    · exact le_rfl
    · omega
  · dsimp only at h
    split at h
    · obtain ⟨⟨err, s₁⟩, h₁, rfl⟩ := Run.map_eq_ok.mp h
      exact (rcvView_tcpOutput h₁).trans hv
    · cases h
      exact hv

theorem rcvView_readerCalls {s s' : St W} (hw : s.pcb.rcvWnd ≤ TCP_WND)
    (h : Relation.ReflTransGen ReaderCall s s') :
    ∃ w ≤ TCP_WND, ∃ x, s'.rcvView = s.rcvView.reread w x := by
  induction h with
  | refl => exact ⟨_, hw, s.world, rfl⟩
  | tail _ hc ih =>
    obtain ⟨w, hw, x, hv⟩ := ih
    rcases hc with ⟨y, rfl⟩ | ⟨len, -, h⟩
    · exact ⟨w, hw, y, by rw [show s.rcvView.reread w y = (s.rcvView.reread w x).reread w y from rfl,
        ← hv, ← show _ = w from congrArg RcvView.rcvWnd hv]; rfl⟩
    · obtain ⟨w', hw', hv'⟩ := rcvView_tcpRecved h
      exact ⟨w', hw', x, by rw [hv', hv]; rfl⟩

/-- A callback has returned. -/
def RcvView.event (v : RcvView W) (e : Event) (ret : Err) : RcvView W :=
  { v with log := v.log ++ [.event e ret] }

theorem rcvView_tcpEvent {app : App W} (happ : ReaderApp app) {e : Event} {s s' : St W} {ret : Err}
    (hw : s.pcb.rcvWnd ≤ TCP_WND) (h : tcpEvent app e s = .ok (ret, s')) :
    ret ≠ .abrt ∧ ∃ w ≤ TCP_WND, ∃ x, s'.rcvView = (s.rcvView.reread w x).event e ret := by
  obtain ⟨⟨err, s₁⟩, h₁, h⟩ := Run.bind_eq_ok.mp h
  cases h
  obtain ⟨hret, hc⟩ := happ _ _ _ _ h₁
  obtain ⟨w, hw, x, hv⟩ := rcvView_readerCalls hw hc
  refine ⟨hret, w, hw, x, ?_⟩
  rw [← hv]
  simp [RcvView.event, St.rcvView, St.emit, Out.isPacket]

/-! ## The invariant -/

@[simp] theorem events_append (l l' : List Out) : events (l ++ l') = events l ++ events l' := by
  simp [events]

@[simp] theorem events_event (e : Event) (ret : Err) : events [.event e ret] = [(e, ret)] := rfl

theorem events_filter (log : List Out) : events (log.filter fun o => !o.isPacket) = events log := by
  unfold events
  rw [List.filterMap_filter]
  congr 1
  funext o
  cases o <;> rfl

@[simp] theorem accepted_append (es es' : List (Event × Err)) :
    accepted (es ++ es') = accepted es ++ accepted es' := by
  simp [accepted]

@[simp] theorem eofs_append (es es' : List (Event × Err)) :
    eofs (es ++ es') = eofs es + eofs es' := by
  simp [eofs]

/-- EOF is only signalled when all of `S` has been accepted. -/
def EofLast (S : List Byte) (es : List (Event × Err)) : Prop :=
  ∀ pre ret post, es = pre ++ (.closed, ret) :: post → accepted pre = S

theorem EofLast.snoc {es : List (Event × Err)} {e : Event} {ret : Err} (h : EofLast S es)
    (he : e = .closed → accepted es = S) : EofLast S (es ++ [(e, ret)]) := by
  intro pre ret' post heq
  rcases List.eq_nil_or_concat post with rfl | ⟨post, x, rfl⟩
  · obtain ⟨rfl, hx⟩ := List.append_inj' heq rfl
    simp only [List.cons.injEq, Prod.mk.injEq] at hx
    exact he hx.1.1
  · rw [List.concat_eq_append, ← List.cons_append, ← List.append_assoc] at heq
    exact h pre ret' post (List.append_inj' heq rfl).1

/-- The invariant. `pending` says that the FIN has been consumed in this call of `tcp_input` and EOF
    is not yet signalled. -/
structure StreamInv (S : List Byte) (r₀ : U32) (pending : Bool) (v : RcvView W) : Prop where
  live : v.freed = false
  rx : v.tfRxClosed = false
  noReset : v.recvReset = false
  noClosed : v.recvClosed = false
  state : TcpState.ESTABLISHED.num ≤ v.state.num ∧ v.state ≠ .LAST_ACK
  list : v.list = if v.state = .TIME_WAIT then .tw else .active
  recv : ∃ k, Receiving S r₀ (accepted (events v.log) ++ parked v.refusedData) k v.state.finTaken v
  pend : pending = true → v.state.finTaken = true
  data_pend : v.recvData ≠ none → pending = v.state.finTaken
  refused_fin : ∀ r ∈ v.refusedData, r.2 = (v.state.finTaken && !pending)
  eof : eofs (events v.log) =
    if v.state.finTaken = true ∧ v.refusedData = none ∧ pending = false then 1 else 0
  eof_last : EofLast S (events v.log)

/-- The view with the static variables of `tcp_input` reset. -/
def RcvView.fresh (v : RcvView W) : RcvView W :=
  { v with recvReset := false, recvClosed := false, recvGotFin := false, recvData := none }

/-- Between operations the invariant says that the stream is intact. -/
theorem StreamInv.intact {s : St W} (h : StreamInv S r₀ false s.rcvView.fresh) :
    StreamIntact S r₀ s := by
  obtain ⟨k, hk⟩ := h.recv
  have hlog : events s.rcvView.fresh.log = events s.trace := events_filter s.trace
  have hdata := hk.data
  rw [show s.rcvView.fresh.data = [] from rfl, List.append_nil, hlog] at hdata
  refine ⟨?_, ?_, ?_, ?_⟩
  · exact (List.prefix_append _ _).trans (hdata ▸ List.take_prefix k S)
  · have hl : k = (accepted (events s.trace)).length + (parked s.pcb.refusedData).length := by
      have := congrArg List.length hdata
      rw [List.length_append, List.length_take, min_eq_left hk.le] at this
      exact this.symm
    rw [← hl]
    exact hk.rcvNxt
  · rw [← hlog, h.eof]
    split_ifs <;> omega
  · rw [← hlog]
    exact h.eof_last

section View

variable {v : RcvView W} {pending : Bool}

theorem StreamInv.reread {w : ℕ} (h : StreamInv S r₀ pending v) (hw : w ≤ TCP_WND) (x : W) :
    StreamInv S r₀ pending (v.reread w x) :=
  { h with recv := h.recv.imp fun _ hk => { hk with rcvWnd := hw } }

theorem StreamInv.noticed (h : StreamInv S r₀ pending v) (b : Bool) :
    StreamInv S r₀ pending { v with changed := b } :=
  { h with recv := h.recv.imp fun _ hk => { hk with } }

/-- A callback that takes no data. -/
theorem StreamInv.event {e : Event} {ret : Err} (h : StreamInv S r₀ pending v)
    (ha : accepted [(e, ret)] = []) (he : e ≠ .closed) : StreamInv S r₀ pending (v.event e ret) := by
  have hacc : accepted (events (v.event e ret).log) = accepted (events v.log) := by
    simp [RcvView.event, ha]
  refine { h with recv := ?_, eof := ?_, eof_last := ?_ }
  · rw [hacc]
    exact h.recv.imp fun _ hk => { hk with }
  · rw [show eofs (events (v.event e ret).log) = eofs (events v.log) by
      simp [RcvView.event, eofs, he]]
    exact h.eof
  · simp only [RcvView.event, events_append, events_event]
    exact h.eof_last.snoc fun hc => absurd hc he

/-- The recv callback takes the data of `tcp_input`. -/
theorem StreamInv.recv_ok {p : List Pbuf} (h : StreamInv S r₀ pending v) (hd : v.recvData = some p)
    (hr : v.refusedData = none) :
    StreamInv S r₀ pending ({ v with recvData := none }.event (.recv (bytes p)) .ok) := by
  have he : eofs (events v.log) = if v.state.finTaken = true ∧ v.refusedData = none ∧
    pending = false then 1 else 0 := h.eof
  refine { h with recv := ?_, data_pend := by simp [RcvView.event], eof := ?_, eof_last := ?_ }
  · refine h.recv.imp fun k hk => { hk with data := ?_ }
    have := hk.data
    simp only [RcvView.data, hd, hr, parked, Option.getD_some, Option.map_none, Option.getD_none,
      List.append_nil] at this
    simpa [RcvView.event, accepted, RcvView.data, parked, hr] using this
  · rw [show eofs (events _) = eofs (events v.log) by simp [RcvView.event, eofs]]
    exact he
  · simp only [RcvView.event, events_append, events_event]
    exact h.eof_last.snoc fun hc => by cases hc

/-- The recv callback refuses the data of `tcp_input`. -/
theorem StreamInv.recv_refused {p : List Pbuf} {ret : Err} (h : StreamInv S r₀ pending v)
    (hd : v.recvData = some p) (hr : v.refusedData = none) (hret : ret ≠ .ok) :
    StreamInv S r₀ pending
      { v with recvData := none, refusedData := some (p, false),
               log := v.log ++ [.event (.recv (bytes p)) ret] } := by
  have hp := h.data_pend (by simp [hd])
  have ha : accepted [(.recv (bytes p), ret)] = [] := by
    cases ret <;> first | rfl | exact absurd rfl hret
  refine { h with recv := ?_, data_pend := by simp, refused_fin := ?_, eof := ?_, eof_last := ?_ }
  · refine h.recv.imp fun k hk => { hk with data := ?_ }
    have := hk.data
    simp only [RcvView.data, hd, hr, parked, Option.getD_some, Option.map_none, Option.getD_none,
      List.append_nil] at this
    simpa [ha, RcvView.data, parked] using this
  · rintro r hr'
    obtain rfl : r = (p, false) := by simpa using hr'.symm
    simp [hp]
  · have he := h.eof
    rw [hp] at he
    have he' : eofs (events v.log) = 0 := by
      rw [he, if_neg]
      rintro ⟨h1, -, h2⟩
      rw [h1] at h2
      cases h2
    simp only [events_append, events_event, eofs_append, he']
    simp [eofs]
  · simp only [events_append, events_event]
    exact h.eof_last.snoc fun hc => by cases hc

/-- EOF is signalled. -/
theorem StreamInv.closed {ret : Err} (h : StreamInv S r₀ true v) (hd : v.recvData = none)
    (hr : v.refusedData = none) : StreamInv S r₀ false (v.event .closed ret) := by
  have hf := h.pend rfl
  obtain ⟨k, hk⟩ := h.recv
  have hacc : accepted (events v.log) = S := by
    have := hk.data
    rw [hr, hk.fin_end hf, RcvView.data, hd] at this
    simpa [parked] using this
  refine { h with recv := ⟨k, { hk with data := ?_ }⟩, pend := by simp, data_pend := ?_,
                  refused_fin := ?_, eof := ?_, eof_last := ?_ }
  · have := hk.data
    simpa [RcvView.event, accepted, RcvView.data] using this
  · intro hne
    exact absurd hd hne
  · intro r hr'
    rw [show (v.event .closed ret).refusedData = v.refusedData from rfl, hr] at hr'
    cases hr'
  · have he := h.eof
    simp only [Bool.true_eq_false, and_false, if_false] at he
    simp only [RcvView.event, events_append, events_event, eofs_append, he, hf, hr]
    simp [eofs]
  · simp only [RcvView.event, events_append, events_event]
    exact h.eof_last.snoc fun _ => hacc

/-- EOF waits for the refused data. -/
theorem StreamInv.delay {p : List Pbuf} {f : Bool} (h : StreamInv S r₀ true v)
    (hr : v.refusedData = some (p, f)) (hd : v.recvData = none) :
    StreamInv S r₀ false { v with refusedData := some (p, true) } := by
  refine { h with recv := ?_, pend := by simp, data_pend := ?_, refused_fin := ?_, eof := ?_ }
  · refine h.recv.imp fun k hk => { hk with data := ?_ }
    have := hk.data
    rw [hr] at this
    exact this
  · intro hne
    exact absurd hd hne
  · intro r hr'
    obtain rfl : r = (p, true) := by simpa using hr'.symm
    simp [h.pend rfl]
  · have he := h.eof
    simpa using he

/-- The recv callback takes the refused data that is offered again. -/
theorem StreamInv.reoffer_ok {p : List Pbuf} {f : Bool} (h : StreamInv S r₀ false v)
    (hr : v.refusedData = some (p, f)) (hd : v.recvData = none) :
    StreamInv S r₀ f ({ v with refusedData := none }.event (.recv (bytes p)) .ok) := by
  have hf := h.refused_fin _ hr
  simp only [Bool.not_false, Bool.and_true] at hf
  refine { h with recv := ?_, pend := ?_, data_pend := ?_, refused_fin := ?_, eof := ?_,
                  eof_last := ?_ }
  · refine h.recv.imp fun k hk => { hk with data := ?_ }
    have := hk.data
    rw [hr] at this
    simpa [RcvView.event, accepted, parked, RcvView.data] using this
  · rintro rfl
    exact hf.symm
  · intro hne
    exact absurd hd hne
  · intro r hr'
    cases hr'
  · have he := h.eof
    rw [hr] at he
    simp only [reduceCtorEq, false_and, and_false, if_false] at he
    simp only [RcvView.event, events_append, events_event, eofs_append, he, ← hf]
    cases f <;> simp [eofs]
  · simp only [RcvView.event, events_append, events_event]
    exact h.eof_last.snoc fun hc => by cases hc

end View

/-! ## One operation -/

section Op

variable {app : App W} {s s' : St W}

/-- The number of bytes received: accepted or parked. -/
def RcvView.received (v : RcvView W) : ℕ :=
  (accepted (events v.log)).length + (parked v.refusedData).length

/-- What offering data to the application changes. -/
def RcvView.Offered (v v' : RcvView W) : Prop :=
  ∃ w ≤ TCP_WND, ∃ x log r,
    v' = { v with rcvWnd := w, world := x, log := log, refusedData := r } ∧ v'.received = v.received

/-- The window is corrected for the FIN, and EOF is signalled. -/
theorem StreamInv.eventClosed (happ : ReaderApp app) {err : Err}
    (hI : StreamInv S r₀ true s.rcvView.fresh) (hr : s.pcb.refusedData = none)
    (h : tcpEventClosed app s = .ok (err, s')) :
    err ≠ .abrt ∧ StreamInv S r₀ false s'.rcvView.fresh ∧ s'.pcb.refusedData = none ∧
      s.rcvView.Offered s'.rcvView := by
  obtain ⟨k, hk⟩ := hI.recv
  have hw : s.pcb.rcvWnd ≤ TCP_WND := hk.rcvWnd
  have hw' : (rcvWndFin s.pcb).rcvWnd ≤ TCP_WND := by
    unfold rcvWndFin u16
    split
    · dsimp only
      omega
    · exact hw
  have hv : ({ s with pcb := rcvWndFin s.pcb } : St W).rcvView =
      s.rcvView.reread (rcvWndFin s.pcb).rcvWnd s.world := by
    unfold rcvWndFin
    split <;> rfl
  obtain ⟨hret, w, hw₁, x, hv'⟩ := rcvView_tcpEvent happ hw' h
  rw [hv] at hv'
  refine ⟨hret, ?_, ?_, w, hw₁, x, _, s.pcb.refusedData, hv', ?_⟩
  · rw [show s'.rcvView.fresh = _ from congrArg RcvView.fresh hv']
    exact (hI.reread hw₁ x).closed rfl hr
  · rw [show s'.pcb.refusedData = s'.rcvView.refusedData from rfl, hv']
    exact hr
  · rw [hv']
    simp [RcvView.received, RcvView.event, RcvView.reread, accepted]

theorem RcvView.Offered.trans {v v₁ v' : RcvView W} (h₁ : v.Offered v₁) (h₂ : v₁.Offered v') :
    v.Offered v' := by
  obtain ⟨_, -, _, _, _, rfl, e₁⟩ := h₁
  obtain ⟨w, hw, x, log, r, rfl, e₂⟩ := h₂
  exact ⟨w, hw, x, log, r, rfl, e₂.trans e₁⟩

/-- `tcp_process_refused_data` keeps the invariant. -/
theorem StreamInv.processRefusedData (happ : ReaderApp app) {err : Err}
    (hI : StreamInv S r₀ false s.rcvView.fresh)
    (h : tcpProcessRefusedData app s = .ok (err, s')) :
    err ≠ .abrt ∧ StreamInv S r₀ false s'.rcvView.fresh ∧ s.rcvView.Offered s'.rcvView ∧
      (s'.pcb.refusedData = none ∨ ∃ p f ret s₁, s.pcb.refusedData = some (p, f) ∧
        app (.recv (bytes p)) { s with pcb.refusedData := none } = .ok (ret, s₁) ∧ ret ≠ .ok ∧
        s'.pcb.sndNxt = s₁.pcb.sndNxt) := by
  unfold tcpProcessRefusedData at h
  split at h
  · cases h
  · next p f hr =>
    obtain ⟨⟨ret, s₁⟩, h₁, h₂⟩ := Run.bind_eq_ok.mp h
    clear h
    obtain ⟨k, hk⟩ := hI.recv
    obtain ⟨hret, w, hw, x, hv⟩ := rcvView_tcpEvent happ (by exact hk.rcvWnd) h₁
    have hv' : s₁.rcvView.fresh = _ := congrArg RcvView.fresh hv
    dsimp only at h₂
    split at h₂
    · next hok =>
      have hI₁ : StreamInv S r₀ f s₁.rcvView.fresh := by
        rw [hv', hok]
        exact (hI.reread hw x).reoffer_ok hr rfl
      have hoff : s.rcvView.Offered s₁.rcvView := by
        refine ⟨w, hw, x, _, none, hv, ?_⟩
        rw [hv, hok]
        simp [RcvView.received, RcvView.event, RcvView.reread, accepted, parked, St.rcvView, hr]
      split at h₂
      · next hf =>
        obtain ⟨_, -, h₂⟩ := Run.bind_eq_ok.mp h₂
        obtain ⟨⟨err', s₂⟩, h₃, h₄⟩ := Run.bind_eq_ok.mp h₂
        have hr₁ : s₁.pcb.refusedData = none := congrArg (fun v => v.refusedData) hv'
        rw [hf] at hI₁
        obtain ⟨e1, e2, e3, e4⟩ := hI₁.eventClosed happ hr₁ h₃
        cases h₄
        exact ⟨by rw [if_neg e1]; decide, e2, hoff.trans e4, .inl e3⟩
      · next hf =>
        cases h₂
        rw [Bool.not_eq_true] at hf
        rw [hf] at hI₁
        exact ⟨by decide, hI₁, hoff, .inl (congrArg (fun v => v.refusedData) hv')⟩
    · next hok =>
      obtain ⟨_, -, h₂⟩ := Run.bind_eq_ok.mp h₂
      cases h₂
      obtain ⟨⟨ret', s₂⟩, h₃, h₄⟩ := Run.bind_eq_ok.mp h₁
      cases h₄
      have ha : accepted [(.recv (bytes p), ret)] = [] := by
        cases ret <;> first | rfl | exact absurd rfl hok
      have hv₃ := congrArg (fun v => { v with refusedData := some (p, f) }) hv
      refine ⟨by decide, ?_, ⟨w, hw, x, _, some (p, f), hv₃, ?_⟩,
        .inr ⟨p, f, ret, s₂, hr, h₃, hok, rfl⟩⟩
      on_goal 2 =>
        refine (congrArg RcvView.received hv₃).trans ?_
        simp [RcvView.received, RcvView.event, RcvView.reread, ha, St.rcvView, hr, parked]
      have he := (hI.reread hw x).event ha (by simp)
      have hv₂ := congrArg (fun v => { v with refusedData := some (p, f) }) hv'
      dsimp only at hv₂
      convert he using 1
      refine Eq.trans ?_ (hv₂.trans ?_)
      · rfl
      · rw [← hr]
        rfl

theorem Receiving.eq_received {v : RcvView W} {k : ℕ} {fin : Bool}
    (h : Receiving S r₀ (accepted (events v.log) ++ parked v.refusedData) k fin v)
    (hd : v.recvData = none) : k = v.received := by
  have hl := congrArg List.length h.data
  rw [RcvView.data, hd, List.length_append, List.length_append, List.length_take,
    min_eq_left h.le] at hl
  exact hl.symm

/-- The state follows the FIN. -/
theorem StreamInv.enter {v v₁ : RcvView W} {k : ℕ} (hI : StreamInv S r₀ false v)
    (hctl : v₁.toCtlView = v.toCtlView)
    (hR : Receiving S r₀ (accepted (events v.log) ++ parked v.refusedData) k
      (v.state.finTaken || v₁.recvGotFin) v₁)
    (hgot : v₁.recvGotFin = true → v.state.finTaken = false ∧ v.refusedData = none)
    (hdat : v₁.recvData ≠ none → v.state.finTaken = false) {st : TcpState} {list : PcbList}
    {q : List TcpSeg} (hfin : st.finTaken = (v.state.finTaken || v₁.recvGotFin))
    (hst : TcpState.ESTABLISHED.num ≤ st.num ∧ st ≠ .LAST_ACK)
    (hlist : list = if st = .TIME_WAIT then .tw else .active)
    (hq : st.finTaken = false → q = v₁.ooseq) :
    StreamInv S r₀ v₁.recvGotFin { v₁ with state := st, list := list, ooseq := q } := by
  have hlog : v₁.log = v.log := congrArg (fun v => v.log) hctl
  have href : v₁.refusedData = v.refusedData := congrArg (fun v => v.refusedData) hctl
  refine
    { live := (congrArg (fun v => v.freed) hctl).trans hI.live
      rx := (congrArg (fun v => v.tfRxClosed) hctl).trans hI.rx
      noReset := (congrArg (fun v => v.recvReset) hctl).trans hI.noReset
      noClosed := (congrArg (fun v => v.recvClosed) hctl).trans hI.noClosed
      state := hst
      list := hlist
      recv := ⟨k, ?_⟩
      pend := fun hp => by rw [hfin, hp, Bool.or_true]
      data_pend := fun hd => by rw [hfin, hdat hd, Bool.false_or]
      refused_fin := ?_
      eof := ?_
      eof_last := by rw [hlog]; exact hI.eof_last }
  · rw [hlog, href]
    refine ⟨hR.le, hR.data, ?_, hR.rcvWnd, ?_, ?_⟩
    · rw [hfin]
      exact hR.rcvNxt
    · rw [hfin]
      exact hR.fin_end
    · intro hf
      dsimp only
      rw [hq hf]
      exact hR.chain (hfin ▸ hf)
  · intro r hr
    rw [href] at hr
    have := hI.refused_fin r hr
    cases hg : v₁.recvGotFin with
    | true =>
      rw [(hgot hg).2] at hr
      cases hr
    | false => rw [this, hfin, hg, Bool.or_false]
  · rw [hlog, href, hI.eof]
    dsimp only
    cases hg : v₁.recvGotFin with
    | true => simp [(hgot hg).1]
    | false => rw [hfin, hg, Bool.or_false]

theorem rcvView_toTimeWait {s : St W} (hr : s.pcb.refusedData = none) :
    ∃ q, (toTimeWait s).rcvView =
      { s.rcvView with state := .TIME_WAIT, list := .tw, ooseq := q, changed := true } := by
  unfold toTimeWait tcpPcbPurge
  split
  · refine ⟨[], ?_⟩
    simp [St.rcvView, hr]
  · exact ⟨s.pcb.ooseq, rfl⟩

/-- Behind `tcp_receive` the FIN is taken note of in the state. -/
theorem StreamInv.after {s₁ : St W} {seg : InSegment} (hI : StreamInv S r₀ false s.rcvView)
    (hctl : s₁.ctlView = s.ctlView) {k : ℕ}
    (hR : Receiving S r₀ (accepted (events s.rcvView.log) ++ parked s.pcb.refusedData) k
      (s.pcb.state.finTaken || s₁.recvGotFin) s₁.rcvView)
    (hgot : s₁.recvGotFin = true → s.pcb.state.finTaken = false ∧ s.pcb.refusedData = none)
    (hdat : s₁.recvData ≠ none → s.pcb.state.finTaken = false)
    (hst : s₁.pcb.state = s.pcb.state ∨
      (s.pcb.state = .ESTABLISHED ∧ s₁.pcb.state = .CLOSE_WAIT ∧ s₁.recvGotFin = true))
    (hact : s.pcb.state ≠ .TIME_WAIT)
    (hcl : s.pcb.state = .CLOSING → seg.flags.ack = true → seg.ackno = s₁.pcb.sndNxt →
      s.pcb.refusedData = none) :
    StreamInv S r₀ s₁.recvGotFin (tcpProcessAfter s.pcb.state seg s₁).rcvView := by
  have hlist : s₁.list = .active := by
    have : s.list = if s.pcb.state = .TIME_WAIT then .tw else .active := hI.list
    rw [if_neg hact] at this
    exact (congrArg CtlView.list hctl).trans this
  have href : s₁.pcb.refusedData = s.pcb.refusedData := congrArg CtlView.refusedData hctl
  have h0 : TcpState.ESTABLISHED.num ≤ s.pcb.state.num ∧ s.pcb.state ≠ .LAST_ACK := hI.state
  -- the pcb stays on the active list
  have hstay : ∀ st : TcpState, st.finTaken = (s.pcb.state.finTaken || s₁.recvGotFin) →
      TcpState.ESTABLISHED.num ≤ st.num ∧ st ≠ .LAST_ACK → st ≠ .TIME_WAIT →
      StreamInv S r₀ s₁.recvGotFin { s₁.rcvView with state := st } := by
    intro st hf h4 htw
    have ha : StreamInv S r₀ s₁.recvGotFin
        { s₁.rcvView with state := st, list := .active, ooseq := s₁.pcb.ooseq } :=
      hI.enter hctl hR hgot hdat hf h4 (by rw [if_neg htw]) (fun _ => rfl)
    rwa [← hlist] at ha
  -- the pcb moves to the TIME_WAIT list
  have htw : ∀ s₂ : St W, s₂.rcvView = s₁.rcvView →
      (s.pcb.state.finTaken || s₁.recvGotFin) = true → s.pcb.refusedData = none →
      StreamInv S r₀ s₁.recvGotFin (toTimeWait s₂).rcvView := by
    intro s₂ hv hf hr
    have e2 : s₂.pcb.refusedData = s₁.pcb.refusedData := congrArg (fun v => v.refusedData) hv
    obtain ⟨q, hq⟩ := rcvView_toTimeWait (e2.trans (href.trans hr))
    rw [hq, hv]
    have htw : StreamInv S r₀ s₁.recvGotFin
        { s₁.rcvView with state := .TIME_WAIT, list := .tw, ooseq := q } :=
      hI.enter hctl hR hgot hdat hf.symm (by decide) rfl (fun h => by cases h)
    exact htw.noticed true
  -- the state is not changed
  have hsame : s₁.recvGotFin = false → StreamInv S r₀ s₁.recvGotFin s₁.rcvView := by
    intro hg
    have e : s₁.pcb.state = s.pcb.state := by
      rcases hst with hst | ⟨-, -, hst⟩
      · exact hst
      · rw [hg] at hst
        cases hst
    have := hstay s.pcb.state (by rw [hg, Bool.or_false]) h0 hact
    rwa [← e] at this
  unfold tcpProcessAfter
  by_cases hg : s₁.recvGotFin = true
  · obtain ⟨hf, hr⟩ := hgot hg
    have hor : (s.pcb.state.finTaken || s₁.recvGotFin) = true := by rw [hg, Bool.or_true]
    rw [hor] at hstay htw
    cases hs : s.pcb.state <;> rw [hs] at h0 hf <;> simp only [if_pos hg] <;>
      first | exact absurd h0.1 (by decide) | cases hf
    · exact hstay .CLOSE_WAIT rfl (by decide) (by decide)
    · split_ifs
      · exact htw _ rfl rfl hr
      · exact hstay .CLOSING rfl (by decide) (by decide)
    · exact htw _ rfl rfl hr
  · have hor : (s.pcb.state.finTaken || s₁.recvGotFin) = s.pcb.state.finTaken := by
      rw [Bool.not_eq_true] at hg
      rw [hg, Bool.or_false]
    have hsame' := hsame (by simpa using hg)
    rw [hor] at hstay htw
    cases hs : s.pcb.state <;> rw [hs] at h0 hstay htw hcl <;> simp only [if_neg hg] <;>
      first | exact hsame' | exact absurd rfl h0.2 | skip
    · split_ifs
      · exact hstay .FIN_WAIT_2 rfl (by decide) (by decide)
      · exact hsame'
    · split_ifs with hf
      · exact htw _ rfl rfl (hcl rfl hf.1 hf.2)
      · exact hsame'

/-- An entry of the log that is no callback. -/
theorem StreamInv.silent {v : RcvView W} {pending : Bool} {log : List Out}
    (h : StreamInv S r₀ pending v) (hl : events log = events v.log) :
    StreamInv S r₀ pending { v with log := log } :=
  { h with
    recv := by
      rw [hl]
      exact h.recv.imp fun _ hk => { hk with }
    eof := by rw [hl]; exact h.eof
    eof_last := by rw [hl]; exact h.eof_last }

@[simp] theorem recvGotFin_tcpProcessAfter (state : TcpState) (seg : InSegment) (s : St W) :
    (tcpProcessAfter state seg s).recvGotFin = s.recvGotFin := by
  cases state <;> simp only [tcpProcessAfter, toTimeWait, tcpAckNow] <;> split_ifs <;> rfl

@[simp] theorem rcvView_tcpProcessStart (s : St W) (seg : InSegment) :
    (tcpProcessStart s seg).rcvView = s.rcvView := by
  unfold tcpProcessStart
  dsimp only
  split <;> rfl

/-- `tcp_process` on a segment of the peer, in the states that receive or have received. -/
theorem StreamInv.process {pos : ℕ} {seg : InSegment} {err : Err}
    (hI : StreamInv S r₀ false s.rcvView) (hd : s.recvData = none) (hg : s.recvGotFin = false)
    (hact : s.pcb.state ≠ .TIME_WAIT) (hs : Honest S r₀ pos seg)
    (hu : s.pcb.state.finTaken = false → Unaliased s.pcb s.rcvView.received pos seg)
    (hr : s.pcb.refusedData ≠ none → seg.tcplen = 0 ∧
      (s.pcb.state = .CLOSING → seg.flags.ack = true → seg.ackno ≠ s.pcb.sndNxt))
    (h : tcpProcess app s seg = .ok (err, s')) :
    err = .ok ∧ StreamInv S r₀ s'.recvGotFin s'.rcvView := by
  unfold tcpProcess at h
  rw [if_neg (by rw [hs.rst]; simp), if_neg (by rw [hs.syn]; simp)] at h
  -- the timer, the keepalive counter and the MSS are no concern of the receiving side
  generalize hs₀ : tcpProcessStart s seg = s₀ at h
  have hv : s₀.rcvView = s.rcvView := by rw [← hs₀, rcvView_tcpProcessStart]
  have hsn : s₀.pcb.sndNxt = s.pcb.sndNxt := by
    rw [← hs₀]
    unfold tcpProcessStart tcpParseopt
    dsimp only
    split <;> rfl
  have e1 : s₀.pcb.state = s.pcb.state := congrArg RcvView.state hv
  have e2 : s₀.recvGotFin = s.recvGotFin := congrArg RcvView.recvGotFin hv
  have e3 : s₀.recvData = s.recvData := congrArg RcvView.recvData hv
  have e4 : s₀.pcb.refusedData = s.pcb.refusedData := congrArg (fun v => v.refusedData) hv
  have e5 : s₀.pcb.rcvNxt = s.pcb.rcvNxt := congrArg RcvView.rcvNxt hv
  have e6 : s₀.pcb.rcvWnd = s.pcb.rcvWnd := congrArg RcvView.rcvWnd hv
  have hI₀ : StreamInv S r₀ false s₀.rcvView := hv ▸ hI
  obtain ⟨k, hk⟩ := hI₀.recv
  have hkr : k = s.rcvView.received := by
    rw [← hv]
    exact hk.eq_received (e3.trans hd)
  -- the run of `tcp_receive`
  have hmain : ∀ s'', tcpProcessReceive s₀ seg (tcpProcessAfter s₀.pcb.state seg) = .ok s'' →
      StreamInv S r₀ s''.recvGotFin s''.rcvView := by
    intro s'' h
    obtain ⟨s₁, h₁, h⟩ := Run.bind_eq_ok.mp h
    cases h
    obtain ⟨k', r1, r2, r3, r4⟩ := Receiving.tcpReceive hk rfl (e2.trans hg) hs (by
      intro hf
      have := hu (e1 ▸ hf)
      unfold Unaliased inWindow at this ⊢
      rwa [e5, e6, hkr]) h₁
    have hnxt : s₁.pcb.sndNxt = s.pcb.sndNxt :=
      (congrArg EndView.sndNxt (endView_tcpReceive h₁)).trans hsn
    have ha : StreamInv S r₀ s₁.recvGotFin (tcpProcessAfter s₀.pcb.state seg s₁).rcvView :=
      StreamInv.after hI₀ (ctlView_tcpReceive h₁) r1
      (fun hf => ⟨(r2 hf).1, by
        by_contra hne
        have := (hr (e4 ▸ hne)).1
        have := (r2 hf).2
        omega⟩)
      (fun hne => (r3 hne).resolve_left (fun hne' => hne' (e3.trans hd))) r4 (by rwa [e1])
      (fun hc hack hno => by
        by_contra hne
        exact (hr (e4 ▸ hne)).2 (e1 ▸ hc) hack (hno.trans hnxt))
    generalize hs₂ : tcpProcessAfter s₀.pcb.state seg s₁ = s₂ at ha ⊢
    have hg₂ : s₂.recvGotFin = s₁.recvGotFin := by
      rw [← hs₂, recvGotFin_tcpProcessAfter]
    rw [← hg₂] at ha
    rw [rcvView_emit _ _ rfl]
    exact ha.silent (by simp [events])
  have h0 : TcpState.ESTABLISHED.num ≤ s₀.pcb.state.num := by
    rw [e1]
    exact hI.state.1
  unfold tcpProcessState at h
  split at h
  · next hs₁ => rw [hs₁] at h0; exact absurd h0 (by decide)
  · next hs₁ => rw [hs₁] at h0; exact absurd h0 (by decide)
  all_goals try
    obtain ⟨s'', h₁, h⟩ := Run.bind_eq_ok.mp h
    cases h
    exact ⟨rfl, hmain _ h₁⟩
  cases h
  exact ⟨rfl, (e2.trans hg).symm ▸ hI₀⟩

theorem StreamInv.inputSent (happ : ReaderApp app) {err : Err} {pending : Bool}
    (hI : StreamInv S r₀ pending s.rcvView) (h : tcpInputSent app s = .ok (err, s')) :
    err ≠ .abrt ∧ StreamInv S r₀ pending s'.rcvView ∧ s'.recvGotFin = s.recvGotFin := by
  unfold tcpInputSent at h
  split at h
  · obtain ⟨k, hk⟩ := hI.recv
    obtain ⟨hret, w, hw, x, hv⟩ := rcvView_tcpEvent happ (by exact hk.rcvWnd) h
    refine ⟨hret, ?_, congrArg RcvView.recvGotFin hv⟩
    rw [hv]
    exact (hI.reread hw x).event rfl (by simp)
  · cases h
    exact ⟨by decide, hI, rfl⟩

theorem StreamInv.toFresh {v : RcvView W} {pending : Bool} (hI : StreamInv S r₀ pending v)
    (hd : v.recvData = none) : StreamInv S r₀ pending v.fresh :=
  { hI with
    noReset := rfl
    noClosed := rfl
    recv := hI.recv.imp fun _ hk => { hk with
      data := by
        have := hk.data
        rwa [RcvView.data, hd] at this }
    data_pend := fun hne => absurd rfl hne }

theorem StreamInv.inputRecv (happ : ReaderApp app) {gone : Bool} {pending : Bool}
    (hI : StreamInv S r₀ pending s.rcvView) (h : tcpInputRecv app s = .ok (gone, s')) :
    gone = false ∧ StreamInv S r₀ pending s'.rcvView.fresh ∧ s'.recvGotFin = s.recvGotFin := by
  unfold tcpInputRecv at h
  split at h
  · next hd =>
    cases h
    exact ⟨rfl, hI.toFresh hd, rfl⟩
  · next p hd =>
    obtain ⟨_, ha, h₁⟩ := Run.bind_eq_ok.mp h
    have hr := lwipAssert_ok ha
    have hrx : s.pcb.tfRxClosed = false := hI.rx
    rw [if_neg (by rw [hrx]; simp)] at h₁
    obtain ⟨⟨ret, s₁⟩, h₂, h₃⟩ := Run.bind_eq_ok.mp h₁
    clear h h₁
    obtain ⟨k, hk⟩ := hI.recv
    obtain ⟨hret, w, hw, x, hv⟩ := rcvView_tcpEvent happ (by exact hk.rcvWnd) h₂
    dsimp only at h₃
    rw [if_neg hret] at h₃
    obtain ⟨_, -, h₄⟩ := Run.bind_eq_ok.mp h₃
    have hg : s₁.recvGotFin = s.recvGotFin := congrArg RcvView.recvGotFin hv
    split at h₄
    · next hok =>
      cases h₄
      refine ⟨rfl, ?_, hg⟩
      have := ((hI.reread hw x).recv_refused hd hr hok).toFresh rfl
      convert this using 1
      have hv' := congrArg (fun v => { v.fresh with refusedData := some (p, false) }) hv
      exact hv'
    · next hok =>
      cases h₄
      refine ⟨rfl, ?_, hg⟩
      obtain rfl : ret = .ok := by simpa using hok
      have := ((hI.reread hw x).recv_ok hd hr).toFresh rfl
      convert this using 1
      have hv' := congrArg RcvView.fresh hv
      exact hv'

theorem StreamInv.inputFin (happ : ReaderApp app) {aborted : Bool}
    (hI : StreamInv S r₀ s.recvGotFin s.rcvView.fresh)
    (h : tcpInputFin app s = .ok (aborted, s')) :
    aborted = false ∧ StreamInv S r₀ false s'.rcvView.fresh := by
  unfold tcpInputFin at h
  split at h
  · next hg =>
    rw [hg] at hI
    split at h
    · next p f hr =>
      cases h
      exact ⟨rfl, hI.delay hr rfl⟩
    · next hr =>
      obtain ⟨⟨err, s₁⟩, h₁, h₂⟩ := Run.bind_eq_ok.mp h
      cases h₂
      obtain ⟨e1, e2, -⟩ := hI.eventClosed happ hr h₁
      exact ⟨by simpa using e1, e2⟩
  · next hg =>
    cases h
    rw [Bool.not_eq_true] at hg
    rw [hg] at hI
    exact ⟨rfl, hI⟩

theorem StreamInv.inputPcb {v : RcvView W} {pending : Bool} (hI : StreamInv S r₀ pending v)
    (b : Bool) : StreamInv S r₀ pending { v with inputPcb := b } :=
  { hI with recv := hI.recv.imp fun _ hk => { hk with } }

/-- The callbacks of `tcp_input` keep the invariant. -/
theorem StreamInv.inputEvents (happ : ReaderApp app)
    (hI : StreamInv S r₀ s.recvGotFin s.rcvView) (h : tcpInputEvents app s = .ok s') :
    StreamInv S r₀ false s'.rcvView.fresh := by
  obtain ⟨⟨err, s₁⟩, h₁, h₂⟩ := Run.bind_eq_ok.mp h
  obtain ⟨hret, hI₁, hg⟩ := hI.inputSent happ h₁
  dsimp only at h₂
  rw [if_neg hret] at h₂
  obtain ⟨_, -, h₃⟩ := Run.bind_eq_ok.mp h₂
  have hnc : s₁.recvClosed = false := hI₁.noClosed
  rw [if_neg (by rw [hnc]; simp)] at h₃
  obtain ⟨⟨gone, s₂⟩, h₄, h₅⟩ := Run.bind_eq_ok.mp h₃
  obtain ⟨rfl, hI₂, hg₂⟩ := hI₁.inputRecv happ h₄
  dsimp only at h₅
  rw [if_neg (by simp)] at h₅
  obtain ⟨⟨aborted, s₃⟩, h₆, h₇⟩ := Run.bind_eq_ok.mp h₅
  rw [← hg, ← hg₂] at hI₂
  obtain ⟨rfl, hI₃⟩ := hI₂.inputFin happ h₆
  dsimp only at h₇
  rw [if_neg (by simp)] at h₇
  obtain ⟨_, -, h₈⟩ := Run.bind_eq_ok.mp h₇
  obtain ⟨⟨err', s₄⟩, h₉, h₁₀⟩ := Run.bind_eq_ok.mp h₈
  cases h₁₀
  have hv := congrArg (fun v => { v.fresh with inputPcb := false }) (rcvView_tcpOutput h₉)
  exact (congrArg (StreamInv S r₀ false) hv).mpr (hI₃.inputPcb false)

end Op

/-! ## Runs -/

/-- What happens to a receiver: a segment of the peer (the slice from index `pos` on), the fast
    timer, the ooseq purge of the slow timer at `tcp_ticks`, and `tcp_recved`. -/
inductive RcvOp
  | input (pos : ℕ) (seg : InSegment)
  | fasttmr
  | ooseqTmr (ticks : U32)
  | recved (len : Fin 65536)

/-- One operation. `tcp_input` and the timers find the pcb on the list it is on. -/
def rcvOp (app : App W) (s : St W) : RcvOp → Except Fault (St W)
  | .input _ seg =>
    match s.list with
    | .active => tcpInput app s seg
    | .tw => tcpTimewaitInput s seg
    | _ => .ok s
  | .fasttmr => if s.list = .active then tcpFasttmr app s else .ok s
  | .ooseqTmr ticks =>
    if s.list = .active then .ok (tcpSlowtmrOoseq { s with ticks := ticks }) else .ok s
  | .recved len => tcpRecved s len

/-- One operation, and the answers of the environment to its fallible calls. -/
def rcvStep (app : App W) (s : St W) (op : List Bool × RcvOp) : Except Fault (St W) :=
  rcvOp app { s with fails := op.1 } op.2

/-- The condition on one step. A segment whose sequence number passes a test lies where the test
    takes it to be, whatever window the callback that is offered refused data leaves. And in
    `CLOSING`, data that was refused is not refused again while an empty segment acknowledges all
    that was sent. -/
def StreamSafe (app : App W) (S : List Byte) (r₀ : U32) (s : St W) : List Bool × RcvOp → Prop
  | (fails, .input pos seg) =>
    Honest S r₀ pos seg ∧
    (s.pcb.state.finTaken = false →
      ∀ w, (w = s.pcb.rcvWnd ∨ s.pcb.refusedData ≠ none ∧ w ≤ TCP_WND) →
        Unaliased { s.pcb with rcvWnd := w } s.rcvView.received pos seg) ∧
    (s.pcb.state = .CLOSING → seg.tcplen = 0 → seg.flags.ack = true →
      ∀ p fin ret s₁, s.pcb.refusedData = some (p, fin) →
        app (.recv (bytes p)) { ({ s with fails := fails } : St W).resetRecv with
          pcb.refusedData := none } = .ok (ret, s₁) →
        ret ≠ .ok → seg.ackno ≠ s₁.pcb.sndNxt)
  | _ => True

/-- A pcb that is open for receiving, with `rcv_nxt` at the start of the stream. -/
structure Opened (r₀ : U32) (s : St W) : Prop where
  live : s.freed = false
  state : s.pcb.state = .ESTABLISHED ∨ s.pcb.state = .FIN_WAIT_1 ∨ s.pcb.state = .FIN_WAIT_2
  list : s.list = .active
  rx : s.pcb.tfRxClosed = false
  rcvNxt : s.pcb.rcvNxt = r₀
  rcvWnd : s.pcb.rcvWnd ≤ TCP_WND
  ooseq : s.pcb.ooseq = []
  refusedData : s.pcb.refusedData = none
  trace : s.trace = []

theorem Opened.inv {s : St W} (h : Opened r₀ s) (S : List Byte) :
    StreamInv S r₀ false s.rcvView.fresh := by
  have hev : events s.rcvView.log = [] := by
    rw [show events s.rcvView.log = events s.trace from events_filter s.trace, h.trace]
    rfl
  have hstate : s.pcb.state.finTaken = false ∧ s.pcb.state ≠ .TIME_WAIT ∧
      TcpState.ESTABLISHED.num ≤ s.pcb.state.num ∧ s.pcb.state ≠ .LAST_ACK := by
    rcases h.state with hs | hs | hs <;> rw [hs] <;> decide
  obtain ⟨hf, htw, h4⟩ := hstate
  refine
    { live := h.live
      rx := h.rx
      noReset := rfl
      noClosed := rfl
      state := h4
      list := by
        show s.list = if s.pcb.state = .TIME_WAIT then _ else _
        rw [if_neg htw]
        exact h.list
      recv := ⟨0, ?_⟩
      pend := by simp
      data_pend := by simp [RcvView.fresh]
      refused_fin := ?_
      eof := ?_
      eof_last := ?_ }
  · refine ⟨Nat.zero_le _, ?_, ?_, h.rcvWnd, ?_, fun _ => ?_⟩
    · show accepted (events s.rcvView.log) ++ parked s.pcb.refusedData ++ [] = _
      rw [hev, h.refusedData]
      rfl
    · show s.pcb.rcvNxt = r₀ + u32 (0 + s.pcb.state.finTaken.toNat)
      rw [h.rcvNxt, hf]
      simp [u32]
    · show s.pcb.state.finTaken = true → _
      rw [hf]
      simp
    · show OosChain _ _ _ s.pcb.ooseq
      rw [h.ooseq]
      trivial
  · intro r hr
    rw [show s.rcvView.fresh.refusedData = none from h.refusedData] at hr
    cases hr
  · show eofs (events s.rcvView.log) = _
    rw [hev, if_neg]
    · rfl
    · rintro ⟨hf', -⟩
      rw [show s.rcvView.fresh.state.finTaken = false from hf] at hf'
      cases hf'
  · show EofLast S (events s.rcvView.log)
    rw [hev]
    intro pre ret post heq
    simp at heq

theorem StreamInv.input {app : App W} (happ : ReaderApp app) {s s' : St W} {pos : ℕ}
    {seg : InSegment} {fails : List Bool} (hI : StreamInv S r₀ false s.rcvView.fresh)
    (hlist : s.list = .active) (hs : StreamSafe app S r₀ s (fails, .input pos seg))
    (h : tcpInput app { s with fails := fails } seg = .ok s') :
    StreamInv S r₀ false s'.rcvView.fresh := by
  obtain ⟨hh, hu, hc⟩ := hs
  obtain ⟨⟨dropped, s₁⟩, h₁, h₂⟩ := Run.bind_eq_ok.mp h
  clear h
  obtain ⟨s₀, hs₀⟩ : ∃ s₀, s₀ = ({ s with fails := fails } : St W).resetRecv := ⟨_, rfl⟩
  have hv₀ : s₀.rcvView = s.rcvView.fresh := by rw [hs₀]; rfl
  have hp₀ : s₀.pcb = s.pcb := by rw [hs₀]; rfl
  replace h₁ : tcpInputRefused app s₀ seg = .ok (dropped, s₁) := by rw [hs₀]; exact h₁
  have hI₀ : StreamInv S r₀ false s₀.rcvView.fresh := by rw [hv₀]; exact hI
  -- the state in which the segment is processed
  have hmid : ∃ w x log r, s₁.rcvView = { s.rcvView.fresh with
        rcvWnd := w, world := x, log := log, refusedData := r } ∧
      (w = s.pcb.rcvWnd ∨ s.pcb.refusedData ≠ none ∧ w ≤ TCP_WND) ∧
      s₁.rcvView.received = s.rcvView.received ∧ StreamInv S r₀ false s₁.rcvView ∧
      (dropped = false → s₁.pcb.refusedData ≠ none → seg.tcplen = 0 ∧
        (s₁.pcb.state = .CLOSING → seg.flags.ack = true → seg.ackno ≠ s₁.pcb.sndNxt)) := by
    unfold tcpInputRefused at h₁
    split at h₁
    · next hr =>
      obtain ⟨⟨err, s₂⟩, h₃, h₄⟩ := Run.bind_eq_ok.mp h₁
      obtain ⟨e1, e2, ⟨w, hw, x, log, r, hv, hrc⟩, e4⟩ := hI₀.processRefusedData happ h₃
      dsimp only at h₄
      rw [if_neg e1] at h₄
      obtain ⟨_, -, h₅⟩ := Run.bind_eq_ok.mp h₄
      cases h₅
      rw [hv₀] at hv hrc
      rw [hp₀] at hr
      refine ⟨w, x, log, r, hv, .inr ⟨hr, hw⟩, hrc, ?_, fun hd hne => ?_⟩
      · have hfr : s₁.rcvView.fresh = s₁.rcvView := by
          rw [hv]
          rfl
        exact hfr ▸ e2
      · have htl : seg.tcplen = 0 := by
          by_contra hl
          simp only [decide_eq_false_iff_not, not_and] at hd
          exact hd hne (by omega)
        refine ⟨htl, fun hcl hack => ?_⟩
        rcases e4 with e4 | ⟨p, f, ret, s₃, g1, g2, g3, g4⟩
        · exact absurd e4 hne
        · rw [g4]
          have hst : s₁.pcb.state = s.pcb.state := congrArg RcvView.state hv
          rw [hs₀] at g1 g2
          exact hc (hst ▸ hcl) htl hack p f ret s₃ g1 g2 g3
    · next hr =>
      cases h₁
      refine ⟨s.pcb.rcvWnd, s.world, s.rcvView.log, s.pcb.refusedData, hv₀, .inl rfl, ?_, ?_,
        fun _ hne => absurd hne hr⟩
      · rw [hv₀]
        rfl
      · rw [hv₀]
        exact hI
  obtain ⟨w, x, log, r, hv, hw, hrc, hI₁, hrf⟩ := hmid
  have hst : s₁.pcb.state = s.pcb.state := congrArg RcvView.state hv
  have hnx : s₁.pcb.rcvNxt = s.pcb.rcvNxt := congrArg RcvView.rcvNxt hv
  have hwn : s₁.pcb.rcvWnd = w := congrArg RcvView.rcvWnd hv
  have hact : s₁.pcb.state ≠ .TIME_WAIT := by
    intro htw
    have : s.list = if s.pcb.state = .TIME_WAIT then .tw else .active := hI.list
    rw [hlist, if_pos (by rw [← hst]; exact htw)] at this
    cases this
  dsimp only at h₂
  split at h₂
  · cases h₂
    have hI₂ : StreamInv S r₀ false s₁.rcvView.fresh := hI₁.toFresh (congrArg RcvView.recvData hv)
    exact hI₂.inputPcb false
  · next hd =>
    obtain ⟨⟨err, s₂⟩, h₃, h₄⟩ := Run.bind_eq_ok.mp h₂
    obtain ⟨s₁', hs₁'⟩ : ∃ s' : St W, s' = { s₁ with inputPcb := true } := ⟨_, rfl⟩
    rw [← hs₁'] at h₃
    have hv' : s₁'.rcvView = { s₁.rcvView with inputPcb := true } := by rw [hs₁']; rfl
    have hp' : s₁'.pcb = s₁.pcb := by rw [hs₁']
    obtain ⟨rfl, hI₂⟩ := @StreamInv.process W S r₀ app s₁' s₂ pos seg err
      (by rw [hv']; exact hI₁.inputPcb true)
      (by rw [hs₁']; exact congrArg RcvView.recvData hv)
      (by rw [hs₁']; exact congrArg RcvView.recvGotFin hv) (by rw [hp']; exact hact) hh
      (by
        intro hf
        rw [hp', hst] at hf
        have := hu hf w hw
        unfold Unaliased inWindow at this ⊢
        have hrc' : s₁'.rcvView.received = s.rcvView.received := by
          rw [hv']
          exact hrc
        rw [hp', hnx, hwn, hrc']
        exact this)
      (by rw [hp']; exact hrf (by simpa using hd)) h₃
    dsimp only at h₄
    rw [if_neg (by decide), if_neg (by rw [show s₂.recvReset = false from hI₂.noReset]; simp)] at h₄
    exact hI₂.inputEvents happ h₄

@[simp] theorem rcvView_tcpRstReply (s : St W) (seg : InSegment) :
    (tcpRstReply s seg).rcvView = s.rcvView :=
  rcvView_tcpRst s _ _ _

theorem rcvView_tcpTimewaitInput {s s' : St W} {seg : InSegment}
    (h : tcpTimewaitInput s seg = .ok s') : s'.rcvView = s.rcvView := by
  unfold tcpTimewaitInput at h
  split at h
  · cases h
    rfl
  · split at h
    · cases h
      exact rcvView_tcpRstReply s seg
    · have hv : (if seg.flags.syn = false ∧ seg.flags.fin = true then
          ({ s with pcb.tmr := s.ticks } : St W) else s).rcvView = s.rcvView := by
        split <;> rfl
      dsimp only at h
      split at h
      · obtain ⟨⟨err, s₁⟩, h₁, rfl⟩ := Run.map_eq_ok.mp h
        exact (rcvView_tcpOutput h₁).trans hv
      · cases h
        exact hv

theorem rcvView_tcpFasttmrAck {s s' : St W} (h : tcpFasttmrAck s = .ok s') :
    s'.rcvView = s.rcvView := by
  unfold tcpFasttmrAck at h
  split at h
  · obtain ⟨⟨err, s₁⟩, h₁, h₂⟩ := Run.bind_eq_ok.mp h
    cases h₂
    exact (rcvView_tcpOutput h₁).trans rfl
  · cases h
    rfl

/-- ooseq may be emptied at any time. -/
theorem StreamInv.ooseqTmr {s : St W} (hI : StreamInv S r₀ false s.rcvView.fresh) :
    StreamInv S r₀ false (tcpSlowtmrOoseq s).rcvView.fresh := by
  unfold tcpSlowtmrOoseq
  split
  · exact { hI with recv := hI.recv.imp fun _ hk => { hk with chain := fun _ => trivial } }
  · exact hI

/-- What one operation preserves. -/
theorem StreamInv.step {app : App W} (happ : ReaderApp app) {s s' : St W} {op : List Bool × RcvOp}
    (hI : StreamInv S r₀ false s.rcvView.fresh) (hs : StreamSafe app S r₀ s op)
    (h : rcvStep app s op = .ok s') : StreamInv S r₀ false s'.rcvView.fresh := by
  obtain ⟨fails, op⟩ := op
  unfold rcvStep rcvOp at h
  cases op with
  | input pos seg =>
    dsimp only at h
    split at h
    · next hl => exact hI.input happ hl hs h
    · rw [show s'.rcvView = s.rcvView from (rcvView_tcpTimewaitInput h).trans rfl]
      exact hI
    · cases h
      exact hI
  | fasttmr =>
    dsimp only at h
    split at h
    · obtain ⟨s₁, h₁, h₂⟩ := Run.bind_eq_ok.mp h
      have hv : s₁.rcvView = s.rcvView := (rcvView_tcpFasttmrAck h₁).trans rfl
      have hI₁ : StreamInv S r₀ false s₁.rcvView.fresh := by
        rw [hv]
        exact hI
      split at h₂
      · obtain ⟨⟨err, s₂⟩, h₃, rfl⟩ := Run.map_eq_ok.mp h₂
        exact (StreamInv.processRefusedData happ (hI₁.noticed false) h₃).2.1
      · cases h₂
        exact hI₁
    · cases h
      exact hI
  | ooseqTmr ticks =>
    dsimp only at h
    split at h
    · cases h
      exact @StreamInv.ooseqTmr W S r₀ { s with fails := fails, ticks := ticks } hI
    · cases h
      exact hI
  | recved len =>
    obtain ⟨w, hw, hv⟩ := rcvView_tcpRecved h
    have hI' := hI.reread hw s.world
    rw [hv]
    exact hI'

/-- Along every run whose steps are safe, the received stream is intact. -/
theorem stream_integrity (app : App W) (happ : ReaderApp app) (S : List Byte) (r₀ : U32)
    (s₀ s : St W) (h₀ : Opened r₀ s₀)
    (h : Run.Reach (rcvStep app) (StreamSafe app S r₀) s₀ s) : StreamIntact S r₀ s :=
  StreamInv.intact (h.invariant (I := fun s => StreamInv S r₀ false s.rcvView.fresh) (h₀.inv S)
    fun _ _ _ hI hs he => hI.step happ hs he)

/-! ### Two runs -/

/-- The header of a segment of the peer. -/
def peerHdr (seqno ackno : U32) (fin : Bool) : TcpHdr where
  connid1 := 1
  connid2 := 2
  seqno := seqno
  ackno := ackno
  hdrlen := 5
  flags := { ack := true, fin := fin }
  wnd := TCP_WND

/-- A pcb in `FIN_WAIT_1` whose FIN, with sequence number 100, is in flight. -/
def finWait1 : St Unit where
  pcb := { tcpAllocPcb TCP_PRIO_NORMAL 100 0 with
    state := .FIN_WAIT_1
    tfFin := true
    sndNxt := 101
    sndLbb := 101
    sndWnd := TCP_WND
    sndWndMax := TCP_WND
    sndQueuelen := 1
    rtime := 0
    unacked := [{ p := [{ payload := [] }], len := 0, tcphdr := peerHdr 100 0 true }] }
  list := .active
  world := ()

theorem opened_finWait1 : Opened 0 finWait1 :=
  ⟨rfl, .inr (.inl rfl), rfl, rfl, rfl, by decide, rfl, rfl, rfl⟩

/-- An application whose callbacks all return `ret`. -/
def constApp (ret : Err) : App Unit := fun _ s => .ok (ret, s)

theorem readerApp_constApp {ret : Err} (h : ret ≠ .abrt) : ReaderApp (constApp ret) := by
  intro e s ret' s' he
  cases he
  exact ⟨h, .refl⟩

/-- One byte and FIN, which do not acknowledge the FIN in flight. -/
def dataFin : List Bool × RcvOp :=
  ([], .input 0 { tcphdr := peerHdr 0 100 true, p := [{ payload := [7] }], bound := oneByte_bound })

/-- The empty segment behind them, which acknowledges it. -/
def finAck : List Bool × RcvOp :=
  ([], .input 2 { tcphdr := peerHdr 2 101 false, p := [], bound := noData_bound })

theorem honest_dataFin (seg : InSegment) (pos : ℕ) (h : dataFin.2 = .input pos seg) :
    Honest [7] 0 pos seg := by
  cases h
  exact ⟨fun _ => rfl, fun _ => ⟨0, rfl, by decide, by decide⟩, fun _ => rfl, rfl, rfl⟩

theorem stream_integrity_dataFin : ∃ s, Run.exec (rcvStep (constApp .ok)) finWait1 [dataFin] = .ok s ∧
    StreamIntact [7] 0 s ∧ accepted (events s.trace) = [7] := by
  refine ⟨_, rfl, stream_integrity (constApp .ok) (readerApp_constApp (by decide)) [7] 0 finWait1 _
    opened_finWait1 (.step dataFin .refl ⟨honest_dataFin _ _ rfl, fun _ w _ _ _ => ?_, ?_⟩ rfl), rfl⟩
  · decide
  · intro h
    cases h

/-- Every segment is one of an honest peer. -/
def StreamHonest (S : List Byte) (r₀ : U32) (_ : St Unit) : List Bool × RcvOp → Prop
  | (_, .input pos seg) => Honest S r₀ pos seg
  | _ => True

/-- The callback refuses the byte, the pcb moves to `CLOSING`, and the ACK of its FIN moves it on to
    `TIME_WAIT`: the purge drops the byte that `rcv_nxt` counts. -/
theorem stream_integrity_fails : ∃ s,
    ReaderApp (constApp .mem) ∧ Opened 0 finWait1 ∧
    Run.Reach (rcvStep (constApp .mem)) (StreamHonest [7] 0) finWait1 s ∧
    ¬ StreamIntact [7] 0 s := by
  refine ⟨_, readerApp_constApp (by decide), opened_finWait1,
    .step finAck (.step dataFin .refl (honest_dataFin _ _ rfl) rfl) ?_ rfl, fun h => ?_⟩
  · exact ⟨fun h => absurd h (by decide), fun h => absurd h (by decide), by decide, rfl, rfl⟩
  · exact absurd h.rcvNxt_eq (by decide)

end Rudp

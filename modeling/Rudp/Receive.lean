import Rudp.Frame
import Rudp.Reassembly

/-!
# The data part of `tcp_receive`

One lemma for each step: when the segment overlaps `rcv_nxt` or lies in the window, what the two
trimmings leave of it, and what taking a segment changes.

Results:
* `overlap_iff`, `inWindow_iff`: the two tests as statements about the position of the segment.
* `trimFront_spec`, `trimWnd_spec`: the segment behind the trimming.
* `tcpReceiveTake_ok`: what taking a segment changes.
* `ctlView_tcpReceive`: `tcp_receive` only moves the receive position, the window, ooseq and the
  data for the application.
-/

namespace Rudp

open Serial

variable {W : Type}

/-! ## The tests on the sequence number -/

section Tests

variable {r a : U32}

theorem dist_neg (h : -2147483648 < dist a r) : dist r a = -dist a r := by
  have hu := dist_upper a r
  have := dist_eq_sub (a := r) (b := a) (by decide : 0 < 32) r
    (by rw [dist_self]; exact inHalf_32.mpr (by omega))
  rw [this, dist_self, zero_sub]

/-- The segment starts before `rcv_nxt` and ends behind it. A segment `2^31` away cannot be told
    from one that does. -/
theorem overlap_iff {n : ℕ} (h : -2147483648 < dist a r) (hn0 : 0 < n)
    (hn : n ≤ 65536) :
    tcpSeqBetween r (a + 1) (a + u32 n - 1) ↔ dist a r ≤ -1 ∧ 1 ≤ dist a r + n := by
  have hu := dist_upper a r
  have hr := dist_neg h
  have h1 : dist (a + 1) a = 1 := by rw [dist_add_one _ _ (by simp), dist_self, zero_add]
  have h2 : dist (a + u32 n) a = n := by
    rw [dist_add_u32 _ _ _ (by simp; omega), dist_self, zero_add]
  have h3 : dist (a + u32 n - 1) a = n - 1 := by rw [dist_sub_one _ _ (by omega), h2]
  have e1 : dist r (a + 1) = -dist a r - 1 := by
    rw [← hr, ← h1]
    exact dist_eq_sub (by decide) a (by rw [hr, h1]; exact inHalf_32.mpr (by omega))
  unfold tcpSeqBetween tcpSeqGeq tcpSeqLeq
  rw [e1]
  constructor
  · rintro ⟨g1, g2⟩
    have e2 : dist r (a + u32 n - 1) = -dist a r - (n - 1) := by
      rw [← hr, ← h3]
      exact dist_eq_sub (by decide) a (by rw [hr, h3]; exact inHalf_32.mpr (by omega))
    omega
  · rintro ⟨g1, g2⟩
    have e2 : dist r (a + u32 n - 1) = -dist a r - (n - 1) := by
      rw [← hr, ← h3]
      exact dist_eq_sub (by decide) a (by rw [hr, h3]; exact inHalf_32.mpr (by omega))
    omega

/-- The sequence number lies in the window. With the window closed, the number `2^31 - 1` ahead
    passes the test as well. -/
theorem inWindow_iff {pcb : Pcb} (hw : pcb.rcvWnd ≤ 65535)
    (h : dist a pcb.rcvNxt < 2147483647 ∨ 0 < pcb.rcvWnd) :
    inWindow pcb a ↔ 0 ≤ dist a pcb.rcvNxt ∧ dist a pcb.rcvNxt < pcb.rcvWnd := by
  have hu := dist_upper a pcb.rcvNxt
  have h2 : dist (pcb.rcvNxt + u32 pcb.rcvWnd) pcb.rcvNxt = pcb.rcvWnd := by
    rw [dist_add_u32 _ _ _ (by simp; omega), dist_self, zero_add]
  have h3 : dist (pcb.rcvNxt + u32 pcb.rcvWnd - 1) pcb.rcvNxt = pcb.rcvWnd - 1 := by
    rw [dist_sub_one _ _ (by omega), h2]
  unfold inWindow tcpSeqBetween tcpSeqGeq tcpSeqLeq
  constructor
  · rintro ⟨g1, g2⟩
    have e := dist_eq_sub (a := a) (b := pcb.rcvNxt + u32 pcb.rcvWnd - 1) (by decide : 0 < 32)
      pcb.rcvNxt (by rw [h3]; exact inHalf_32.mpr (by omega))
    omega
  · rintro ⟨g1, g2⟩
    have e := dist_eq_sub (a := a) (b := pcb.rcvNxt + u32 pcb.rcvWnd - 1) (by decide : 0 < 32)
      pcb.rcvNxt (by rw [h3]; exact inHalf_32.mpr (by omega))
    omega

end Tests

/-! ## Trimming -/

/-- The first edge of the segment is trimmed to `rcv_nxt`. -/
theorem trimFront_spec {r : U32} {c c' : TcpSeg} (hl : c.len = totLen c.p) (hl' : c.len ≤ 65535)
    (h0 : c.pos r ≤ -1) (hlow : -2147483648 < c.pos r) (h1 : 1 ≤ c.pos r + c.tcplen)
    (h : tcpReceiveTrimFront r c = .ok c') :
    c'.tcphdr = { c.tcphdr with seqno := r } ∧ (c'.len : ℤ) = c.len + c.pos r ∧
      c'.len = totLen c'.p ∧ bytes c'.p = (bytes c.p).drop (-c.pos r).toNat := by
  obtain ⟨_, ha, h⟩ := Run.bind_eq_ok.mp h
  obtain ⟨_, -, h⟩ := Run.bind_eq_ok.mp h
  cases h
  have htl := c.tcplen_le
  have hoff : dist r c.tcphdr.seqno = -c.pos r := dist_neg hlow
  have ht := u32_toNat_sub r c.tcphdr.seqno (by omega)
  have hu : (u16 (r - c.tcphdr.seqno).toNat : ℤ) = -c.pos r := by
    rw [u16_of_lt (by omega), ht, hoff]
  have hlen : ((u16 (c.len + 65536 - u16 (r - c.tcphdr.seqno).toNat) : ℕ) : ℤ) =
      c.len + c.pos r := by
    unfold u16 at hu ⊢
    omega
  refine ⟨rfl, hlen, ?_, ?_⟩
  · dsimp only
    rw [totLen_pbufSkip, ← hl, hoff]
    omega
  · dsimp only
    rw [bytes_pbufSkip, hoff]

theorem TcpSeg.Wf.clearFin_cut {c : TcpSeg} (h : c.Wf) {m : ℕ} (hm : m ≤ c.len) :
    (c.clearFin.cut m).len = totLen (c.clearFin.cut m).p := by
  show m = totLen (pbufRealloc c.p m)
  rw [totLen_pbufRealloc, ← h.len_eq, min_eq_left hm]

/-- An in-sequence segment is trimmed to the window. -/
theorem trimWnd_spec {r : U32} {w : ℕ} {c c' : TcpSeg} (htl : c.tcplen ≤ 65535)
    (hw0 : 0 < w) (h : tcpReceiveTrimWnd r w c = .ok c') :
    (c' = c ∧ c.tcplen ≤ w) ∨
      (∃ m, m ≤ c.len ∧ c' = c.clearFin.cut m ∧ c'.tcplen = w ∧ w < c.tcplen) := by
  unfold tcpReceiveTrimWnd at h
  rw [u16_of_lt (by omega)] at h
  split at h
  · next hgt =>
    obtain ⟨_, -, h⟩ := Run.bind_eq_ok.mp h
    cases h
    have hle := c.tcplen_le
    have he := c.tcplen_eq
    refine .inr ⟨trimLen c w, ?_, rfl, ?_, hgt⟩
    · unfold trimLen u16
      split_ifs with hs
      · omega
      · omega
    · rw [TcpSeg.tcplen_eq]
      show trimLen c w + (if false || c.tcphdr.flags.syn then 1 else 0) = w
      unfold trimLen u16
      cases c.tcphdr.flags.syn
      · simp
      · simp only [if_true, Bool.or_true]
        omega
  · next hle => cases h; exact .inl ⟨rfl, not_lt.mp hle⟩

/-! ## Taking a segment -/

theorem tcpUpdateRcvAnnWnd_ok {pcb pcb' : Pcb} {n : U32}
    (h : tcpUpdateRcvAnnWnd pcb = .ok (n, pcb')) : ∃ w, pcb' = { pcb with rcvAnnWnd := w } := by
  unfold tcpUpdateRcvAnnWnd at h
  dsimp only at h
  split at h
  · cases h; exact ⟨_, rfl⟩
  · split at h
    · cases h; exact ⟨_, rfl⟩
    · obtain ⟨_, _, h⟩ := Run.bind_eq_ok.mp h
      cases h; exact ⟨_, rfl⟩

/-- The data that goes to the application. -/
def RcvView.data (v : RcvView W) : List Byte := bytes (v.recvData.getD [])

theorem tcpReceiveTake_ok {s s' : St W} {message : String} {c : TcpSeg} {n : ℕ}
    (h : tcpReceiveTake s message c n = .ok s') :
    n ≤ s.pcb.rcvWnd ∧ s'.rcvView.data = s.rcvView.data ++ bytes c.p ∧
      s'.rcvView = { s.rcvView with
        rcvNxt := c.tcphdr.seqno + u32 n
        rcvWnd := s.pcb.rcvWnd - n
        recvData := s'.recvData
        recvGotFin := s.recvGotFin || c.tcphdr.flags.fin } := by
  obtain ⟨_, ha, h⟩ := Run.bind_eq_ok.mp h
  obtain ⟨⟨_, pcb⟩, hp, h⟩ := Run.bind_eq_ok.mp h
  obtain ⟨w, rfl⟩ := tcpUpdateRcvAnnWnd_ok hp
  cases h
  refine ⟨lwipAssert_ok ha, ?_, rfl⟩
  show bytes (Option.getD (if totLen c.p > 0 then _ else _) []) = _
  split_ifs with ht
  · simp [RcvView.data, St.rcvView]
  · have hb : bytes c.p = [] := List.length_eq_zero_iff.mp (by rw [length_bytes]; omega)
    rw [hb, List.append_nil]
    rfl

theorem ctlView_tcpReceiveDequeue {q : List TcpSeg} {s s' : St W}
    (h : tcpReceiveDequeue q s = .ok s') : s'.ctlView = s.ctlView := by
  induction q generalizing s with
  | nil => cases h; rfl
  | cons c q ih =>
    rw [tcpReceiveDequeue] at h
    split at h
    · obtain ⟨s₁, h₁, h⟩ := Run.bind_eq_ok.mp h
      have ht := congrArg RcvView.toCtlView (tcpReceiveTake_ok h₁).2.2
      exact (ih h).trans ht
    · cases h; rfl

@[simp] theorem rcvView_tcpAck (s : St W) : (tcpAck s).rcvView = s.rcvView := by
  unfold tcpAck
  split <;> rfl

@[simp] theorem rcvView_tcpAckNow (s : St W) : (tcpAckNow s).rcvView = s.rcvView := rfl

theorem ctlView_tcpReceiveInseq {s s' : St W} {c : TcpSeg}
    (h : tcpReceiveInseq s c = .ok s') : s'.ctlView = s.ctlView := by
  obtain ⟨_, -, h⟩ := Run.bind_eq_ok.mp h
  obtain ⟨⟨_, _⟩, -, h⟩ := Run.bind_eq_ok.mp h
  obtain ⟨s₁, h₁, h⟩ := Run.bind_eq_ok.mp h
  obtain ⟨s₂, h₂, h⟩ := Run.bind_eq_ok.mp h
  cases h
  have ht := congrArg RcvView.toCtlView (tcpReceiveTake_ok h₁).2.2
  have ha := congrArg RcvView.toCtlView (rcvView_tcpAck s₂)
  exact (ha.trans (ctlView_tcpReceiveDequeue h₂)).trans ht

/-- What an out-of-sequence segment changes: ooseq, when there is memory for a copy. -/
theorem tcpReceiveOutseq_ok {s s' : St W} {c : TcpSeg} (h : tcpReceiveOutseq s c = .ok s') :
    s'.rcvView = s.rcvView ∨
      ∃ q', oosInsert s.pcb.rcvNxt s.pcb.rcvWnd c s.pcb.ooseq = some (.ok q') ∧
        s'.rcvView = { s.rcvView with ooseq := q' } := by
  unfold tcpReceiveOutseq at h
  have hs := rcvView_tcpSendEmptyAck s
  dsimp only at h
  generalize (tcpSendEmptyAck s).2 = s₁ at h hs
  have e1 : s₁.pcb.rcvNxt = s.pcb.rcvNxt := congrArg RcvView.rcvNxt hs
  have e2 : s₁.pcb.rcvWnd = s.pcb.rcvWnd := congrArg RcvView.rcvWnd hs
  have e3 : s₁.pcb.ooseq = s.pcb.ooseq := congrArg RcvView.ooseq hs
  rw [e1, e2, e3] at h
  split at h
  · cases h; exact .inl hs
  · next queue hq =>
    split at h
    · cases h; exact .inl hs
    · obtain ⟨q', rfl, h⟩ := Run.bind_eq_ok.mp h
      cases h
      refine .inr ⟨q', hq, ?_⟩
      rw [← hs]
      rfl

@[simp] theorem rcvView_tcpReceiveDup (s : St W) (seg : InSegment) :
    (tcpReceiveDup s seg).rcvView = s.rcvView := by
  unfold tcpReceiveDup
  split <;> rfl

theorem ctlView_tcpReceiveData {s s' : St W} {seg : InSegment}
    (h : tcpReceiveData s seg = .ok s') : s'.ctlView = s.ctlView := by
  have hctl {s₁ s₂ : St W} (h : s₁.rcvView = s₂.rcvView) : s₁.ctlView = s₂.ctlView :=
    congrArg RcvView.toCtlView h
  unfold tcpReceiveData at h
  split at h
  · obtain ⟨c, -, h⟩ := Run.bind_eq_ok.mp h
    have hd := hctl (rcvView_tcpReceiveDup s seg)
    unfold tcpReceiveSegment at h
    split at h
    · split at h
      · exact (ctlView_tcpReceiveInseq h).trans hd
      · rcases tcpReceiveOutseq_ok h with h | ⟨q', -, h⟩
        · exact (hctl h).trans hd
        · have h' := congrArg RcvView.toCtlView h
          exact h'.trans hd
    · cases h
      exact (hctl (rcvView_tcpSendEmptyAck _)).trans hd
  · split at h <;> cases h <;> rfl

/-- `tcp_receive` only moves the receive position, the window, ooseq, the state and the data for
    the application. -/
theorem ctlView_tcpReceive {s s' : St W} {seg : InSegment} (h : tcpReceive s seg = .ok s') :
    s'.ctlView = s.ctlView := by
  obtain ⟨-, s₁, -, hv, h⟩ := tcpReceive_parts h
  exact (ctlView_tcpReceiveData h).trans (congrArg RcvView.toCtlView hv)

/-- Where a segment with data or FIN goes: nowhere, to the application, or to ooseq. -/
theorem tcpReceiveData_cases {s s' : St W} {seg : InSegment}
    (h : tcpReceiveData s seg = .ok s') :
    s'.rcvView = s.rcvView ∨
      (0 < seg.tcplen ∧ s.pcb.state.num < TcpState.CLOSE_WAIT.num ∧
        ∃ c s₁, tcpReceiveFirstEdge s.pcb.rcvNxt seg = .ok c ∧ s₁.rcvView = s.rcvView ∧
          inWindow s.pcb c.tcphdr.seqno ∧
          ((c.tcphdr.seqno = s.pcb.rcvNxt ∧ tcpReceiveInseq s₁ c = .ok s') ∨
            (c.tcphdr.seqno ≠ s.pcb.rcvNxt ∧
              ∃ q', oosInsert s.pcb.rcvNxt s.pcb.rcvWnd c s.pcb.ooseq = some (.ok q') ∧
                s'.rcvView = { s.rcvView with ooseq := q' }))) := by
  unfold tcpReceiveData at h
  split at h
  · next hc =>
    obtain ⟨c, hc₁, h⟩ := Run.bind_eq_ok.mp h
    have hd := rcvView_tcpReceiveDup s seg
    generalize tcpReceiveDup s seg = s₁ at h hd
    have e1 : s₁.pcb.rcvNxt = s.pcb.rcvNxt := congrArg RcvView.rcvNxt hd
    have e2 : s₁.pcb.rcvWnd = s.pcb.rcvWnd := congrArg RcvView.rcvWnd hd
    have e3 : s₁.pcb.ooseq = s.pcb.ooseq := congrArg RcvView.ooseq hd
    have ew : inWindow s₁.pcb c.tcphdr.seqno ↔ inWindow s.pcb c.tcphdr.seqno := by
      unfold inWindow
      rw [e1, e2]
    unfold tcpReceiveSegment at h
    rw [e1] at h
    split at h
    · next hw =>
      split at h
      · next heq => exact .inr ⟨hc.1, hc.2, c, s₁, hc₁, hd, ew.mp hw, .inl ⟨heq.symm, h⟩⟩
      · next hne =>
        rcases tcpReceiveOutseq_ok h with h | ⟨q', hq', h⟩
        · exact .inl (h.trans hd)
        · rw [e1, e2, e3] at hq'
          rw [hd] at h
          exact .inr ⟨hc.1, hc.2, c, s₁, hc₁, hd, ew.mp hw, .inr ⟨Ne.symm hne, q', hq', h⟩⟩
    · cases h
      exact .inl ((rcvView_tcpSendEmptyAck _).trans hd)
  · split at h <;> cases h <;> exact .inl rfl

/-! ## Segments taken in sequence -/

theorem state_tcpReceiveDequeue {q : List TcpSeg} {s s' : St W}
    (h : tcpReceiveDequeue q s = .ok s') :
    s'.pcb.state = s.pcb.state ∨ (s.pcb.state = .ESTABLISHED ∧ s'.pcb.state = .CLOSE_WAIT) := by
  induction q generalizing s with
  | nil =>
    cases h
    exact .inl rfl
  | cons c q ih =>
    rw [tcpReceiveDequeue] at h
    split at h
    · obtain ⟨s₁, h₁, h⟩ := Run.bind_eq_ok.mp h
      have hs₁ : s₁.pcb.state = s.pcb.state :=
        congrArg RcvView.state (tcpReceiveTake_ok h₁).2.2
      have hi := ih h
      dsimp only at hi
      rw [hs₁] at hi
      by_cases hf : c.tcphdr.flags.fin = true ∧ s.pcb.state = .ESTABLISHED
      · rw [if_pos hf] at hi
        rcases hi with hi | ⟨hi, -⟩
        · exact .inr ⟨hf.2, hi⟩
        · cases hi
      · rw [if_neg hf] at hi
        exact hi
    · cases h
      exact .inl rfl

/-- `tcp_receive` itself moves the pcb to `CLOSE_WAIT` when it finds a FIN on ooseq. -/
theorem state_tcpReceiveData {s s' : St W} {seg : InSegment} (h : tcpReceiveData s seg = .ok s') :
    s'.pcb.state = s.pcb.state ∨ (s.pcb.state = .ESTABLISHED ∧ s'.pcb.state = .CLOSE_WAIT) := by
  rcases tcpReceiveData_cases h with e | ⟨-, -, c, s₂, -, hv, -, ⟨-, h⟩ | ⟨-, q', -, e⟩⟩
  · exact .inl (congrArg RcvView.state e)
  · have e₂ : s₂.pcb.state = s.pcb.state := congrArg RcvView.state hv
    obtain ⟨_, -, h⟩ := Run.bind_eq_ok.mp h
    obtain ⟨⟨_, _⟩, -, h⟩ := Run.bind_eq_ok.mp h
    obtain ⟨s₃, h₃, h⟩ := Run.bind_eq_ok.mp h
    obtain ⟨s₄, h₄, h⟩ := Run.bind_eq_ok.mp h
    cases h
    have e₃ : s₃.pcb.state = s₂.pcb.state := congrArg RcvView.state (tcpReceiveTake_ok h₃).2.2
    have ea : (tcpAck s₄).pcb.state = s₄.pcb.state := congrArg RcvView.state (rcvView_tcpAck s₄)
    rw [ea, ← e₂, ← e₃]
    exact state_tcpReceiveDequeue h₄
  · exact .inl (congrArg RcvView.state e)

theorem state_tcpReceive {s s' : St W} {seg : InSegment} (h : tcpReceive s seg = .ok s') :
    s'.pcb.state = s.pcb.state ∨ (s.pcb.state = .ESTABLISHED ∧ s'.pcb.state = .CLOSE_WAIT) := by
  obtain ⟨-, s₁, -, hv, h⟩ := tcpReceive_parts h
  have e₁ : s₁.pcb.state = s.pcb.state := congrArg RcvView.state hv
  rw [← e₁]
  exact state_tcpReceiveData h

/-- The sequence numbers that a list of segments occupies. -/
def seqLen (segs : List TcpSeg) : ℕ := (segs.map TcpSeg.tcplen).sum

/-- Does one of the segments carry FIN? -/
def anyFin (segs : List TcpSeg) : Bool := segs.any fun c => c.tcphdr.flags.fin

/-- Segments that follow each other: each satisfies `Q n` in sequence (at position `0`), where `n`
    counts the sequence numbers before it. -/
def InSeq (Q : ℕ → ℤ → TcpSeg → Prop) : ℕ → List TcpSeg → Prop
  | _, [] => True
  | n, c :: l => c.len = totLen c.p ∧ Q n 0 c ∧ InSeq Q (n + c.tcplen) l

@[simp] theorem seqLen_nil : seqLen [] = 0 := rfl

@[simp] theorem seqLen_cons (c : TcpSeg) (l : List TcpSeg) :
    seqLen (c :: l) = c.tcplen + seqLen l := rfl

@[simp] theorem anyFin_nil : anyFin [] = false := rfl

@[simp] theorem anyFin_cons (c : TcpSeg) (l : List TcpSeg) :
    anyFin (c :: l) = (c.tcphdr.flags.fin || anyFin l) := rfl

theorem u32_add (m n : ℕ) : u32 (m + n) = u32 m + u32 n := by
  unfold u32
  rw [BitVec.ofNat_add]

/-- What changes when `segs` are taken one after the other. -/
structure Took (segs : List TcpSeg) (s s' : St W) : Prop where
  rcvNxt : s'.pcb.rcvNxt = s.pcb.rcvNxt + u32 (seqLen segs)
  rcvWnd : s'.pcb.rcvWnd + seqLen segs = s.pcb.rcvWnd
  data : s'.rcvView.data = s.rcvView.data ++ segs.flatMap fun c => bytes c.p
  recvData : s'.recvData ≠ none ↔ s.recvData ≠ none ∨ segs.flatMap (fun c => bytes c.p) ≠ []
  gotFin : s'.recvGotFin = (s.recvGotFin || anyFin segs)
  state : s'.pcb.state = s.pcb.state ∨
    (s.pcb.state = .ESTABLISHED ∧ s'.pcb.state = .CLOSE_WAIT ∧ anyFin segs = true)

theorem Took.nil (s : St W) : Took [] s s where
  rcvNxt := by simp [u32]
  rcvWnd := rfl
  data := by simp
  recvData := by simp
  gotFin := by simp
  state := .inl rfl

theorem Took.cons {c : TcpSeg} {segs : List TcpSeg} {s s₁ s' : St W} (h₁ : Took [c] s s₁)
    (h : Took segs s₁ s') : Took (c :: segs) s s' where
  rcvNxt := by
    rw [h.rcvNxt, h₁.rcvNxt, seqLen_cons, seqLen_cons, seqLen_nil, Nat.add_zero, u32_add,
      BitVec.add_assoc]
  rcvWnd := by
    have e := h.rcvWnd
    have e₁ := h₁.rcvWnd
    simp only [seqLen_cons, seqLen_nil] at e₁ ⊢
    omega
  data := by
    rw [h.data, h₁.data]
    simp
  recvData := by
    rw [h.recvData, h₁.recvData]
    simp [or_assoc]
    tauto
  gotFin := by
    rw [h.gotFin, h₁.gotFin]
    simp [Bool.or_assoc]
  state := by
    have e₁ := h₁.state
    have e := h.state
    simp only [anyFin_cons, anyFin_nil, Bool.or_false] at e₁ ⊢
    rcases e₁ with e₁ | ⟨e₁, e₂, e₃⟩
    · rw [e₁] at e
      rcases e with e | ⟨e, e', e''⟩
      · exact .inl e
      · exact .inr ⟨e, e', by simp [e'']⟩
    · rcases e with e | ⟨e, -, -⟩
      · exact .inr ⟨e₁, e.trans e₂, by simp [e₃]⟩
      · rw [e₂] at e
        cases e

theorem Took.congr {segs : List TcpSeg} {s s₁ s' : St W} (hv : s'.rcvView = s₁.rcvView)
    (h : Took segs s s₁) : Took segs s s' where
  rcvNxt := (congrArg RcvView.rcvNxt hv).trans h.rcvNxt
  rcvWnd := (congrArg (RcvView.rcvWnd · + _) hv).trans h.rcvWnd
  data := (congrArg RcvView.data hv).trans h.data
  recvData := by
    rw [← h.recvData, show s'.recvData = s₁.recvData from congrArg RcvView.recvData hv]
  gotFin := (congrArg RcvView.recvGotFin hv).trans h.gotFin
  state := by
    rw [show s'.pcb.state = s₁.pcb.state from congrArg RcvView.state hv]
    exact h.state

theorem Took.congr_left {segs : List TcpSeg} {s s₁ s' : St W} (hv : s₁.rcvView = s.rcvView)
    (h : Took segs s₁ s') : Took segs s s' where
  rcvNxt := by
    rw [h.rcvNxt, show s₁.pcb.rcvNxt = s.pcb.rcvNxt from congrArg RcvView.rcvNxt hv]
  rcvWnd := h.rcvWnd.trans (congrArg RcvView.rcvWnd hv)
  data := by rw [h.data, hv]
  recvData := by
    rw [h.recvData, show s₁.recvData = s.recvData from congrArg RcvView.recvData hv]
  gotFin := by
    rw [h.gotFin, show s₁.recvGotFin = s.recvGotFin from congrArg RcvView.recvGotFin hv]
  state := by
    rw [← show s₁.pcb.state = s.pcb.state from congrArg RcvView.state hv]
    exact h.state

theorem bytes_eq_nil {p : List Pbuf} : bytes p = [] ↔ totLen p = 0 := by
  rw [← List.length_eq_zero_iff, length_bytes]

theorem tcpReceiveTake_took {s s' : St W} {message : String} {c : TcpSeg}
    (hc : c.tcphdr.seqno = s.pcb.rcvNxt) (h : tcpReceiveTake s message c c.tcplen = .ok s') :
    Took [c] s s' where
  rcvNxt := by
    have e : s'.pcb.rcvNxt = _ := congrArg RcvView.rcvNxt (tcpReceiveTake_ok h).2.2
    rw [e, ← hc]
    rfl
  rcvWnd := by
    obtain ⟨g, -, e⟩ := tcpReceiveTake_ok h
    have e' : s'.pcb.rcvWnd = s.pcb.rcvWnd - c.tcplen := congrArg RcvView.rcvWnd e
    simp only [seqLen_cons, seqLen_nil]
    omega
  data := by simpa using (tcpReceiveTake_ok h).2.1
  recvData := by
    obtain ⟨_, -, h⟩ := Run.bind_eq_ok.mp h
    obtain ⟨_, -, h⟩ := Run.bind_eq_ok.mp h
    cases h
    simp only [List.flatMap_cons, List.flatMap_nil, List.append_nil, ne_eq, bytes_eq_nil]
    split_ifs with ht
    · simp
      omega
    · have : totLen c.p = 0 := by omega
      simp [this]
  gotFin := by
    have e : s'.recvGotFin = _ := congrArg RcvView.recvGotFin (tcpReceiveTake_ok h).2.2
    rw [e]
    simp
  state := .inl (congrArg RcvView.state (tcpReceiveTake_ok h).2.2)

/-! ### The queue behind the segments that are taken -/

/-- `Q n` speaks about positions behind the first `n` sequence numbers. -/
def Shifts (Q : ℕ → ℤ → TcpSeg → Prop) : Prop := ∀ n (t : ℕ) p c, Q n p c → Q (n + t) (p - t) c

/-- `segs` are taken in sequence, and what `Q` says of the queue holds of the rest. -/
structure TookSegs (Q : ℕ → ℤ → TcpSeg → Prop) (n : ℕ) (segs : List TcpSeg) (s s' : St W) :
    Prop extends Took segs s s' where
  inSeq : InSeq Q n segs
  fin_last : anyFin segs = true → s'.pcb.ooseq = []
  chain : OosChain (Q (n + seqLen segs)) s'.pcb.rcvNxt (-1) s'.pcb.ooseq

section Take

variable {Q : ℕ → ℤ → TcpSeg → Prop} {n : ℕ}

/-- A segment that is next in sequence. -/
theorem pos_eq_zero {r : U32} {c : TcpSeg} (h : c.tcphdr.seqno = r) : c.pos r = 0 := by
  rw [TcpSeg.pos, h, dist_self]

/-- The queue behind a segment that is taken off its head. -/
theorem OosChain.take_head (hQ : Shifts Q) {r : U32} {c : TcpSeg} {q : List TcpSeg}
    (hc : c.tcphdr.seqno = r) (ht : c.tcplen ≤ 65535) (h : OosChain (Q n) r (-1) (c :: q)) :
    OosChain (Q (n + c.tcplen)) (r + u32 c.tcplen) (-1) q := by
  have hle := c.tcplen_le
  have h4 := h.2.2.2
  rw [pos_eq_zero hc] at h4
  have := h4.advance (P := Q (n + c.tcplen)) ht (fun p c' => hQ n _ p c') (by omega)
  exact this.mono (by omega)

theorem TookSegs.nil {s : St W} (h : OosChain (Q n) s.pcb.rcvNxt (-1) s.pcb.ooseq) :
    TookSegs Q n [] s s where
  toTook := .nil s
  inSeq := trivial
  fin_last := by simp
  chain := h

theorem TookSegs.cons {c : TcpSeg} {segs : List TcpSeg} {s s₁ s' : St W} (h₁ : Took [c] s s₁)
    (hc : c.len = totLen c.p) (hQ : Q n 0 c)
    (hfin : c.tcphdr.flags.fin = true → s'.pcb.ooseq = [])
    (h : TookSegs Q (n + c.tcplen) segs s₁ s') : TookSegs Q n (c :: segs) s s' where
  toTook := h₁.cons h.toTook
  inSeq := ⟨hc, hQ, h.inSeq⟩
  fin_last := by
    rw [anyFin_cons, Bool.or_eq_true]
    rintro (hf | hf)
    · exact hfin hf
    · exact h.fin_last hf
  chain := by
    rw [seqLen_cons, ← Nat.add_assoc]
    exact h.chain

theorem TookSegs.congr {segs : List TcpSeg} {s s₁ s' : St W} (hv : s'.rcvView = s₁.rcvView)
    (h : TookSegs Q n segs s s₁) : TookSegs Q n segs s s' where
  toTook := h.toTook.congr hv
  inSeq := h.inSeq
  fin_last hf := (congrArg RcvView.ooseq hv).trans (h.fin_last hf)
  chain := by
    rw [show s'.pcb.rcvNxt = s₁.pcb.rcvNxt from congrArg RcvView.rcvNxt hv,
      show s'.pcb.ooseq = s₁.pcb.ooseq from congrArg RcvView.ooseq hv]
    exact h.chain

theorem tcpReceiveDequeue_took (hQ : Shifts Q) {q : List TcpSeg} {s s' : St W}
    (hw : s.pcb.rcvWnd ≤ 65535) (hs : s.pcb.ooseq = q)
    (hq : OosChain (Q n) s.pcb.rcvNxt (-1) q) (h : tcpReceiveDequeue q s = .ok s') :
    ∃ segs, TookSegs Q n segs s s' := by
  induction q generalizing s n with
  | nil =>
    cases h
    exact ⟨[], .nil (hs.symm ▸ hq)⟩
  | cons c q ih =>
    rw [tcpReceiveDequeue] at h
    split at h
    · next heq =>
      obtain ⟨s₁, h₁, h⟩ := Run.bind_eq_ok.mp h
      have ht := tcpReceiveTake_took heq h₁
      have hn := ht.rcvNxt
      have hwn := ht.rcvWnd
      simp only [seqLen_cons, seqLen_nil, Nat.add_zero] at hn hwn
      have hch := hq.take_head hQ heq (by omega)
      rw [← hn] at hch
      obtain ⟨-, ⟨-, hwf, hQc⟩, hfin, -⟩ := hq
      rw [pos_eq_zero heq] at hQc
      dsimp only at h
      obtain ⟨segs, t⟩ := @ih (n + c.tcplen) _ (by show s₁.pcb.rcvWnd ≤ 65535; omega) rfl
        (by exact hch) h
      have e₃ : s₁.pcb.state = s.pcb.state := congrArg RcvView.state (tcpReceiveTake_ok h₁).2.2
      refine ⟨c :: segs, .cons ?_ hwf.len_eq hQc (fun hf => ?_) t⟩
      · refine ⟨ht.rcvNxt, ht.rcvWnd, ht.data, ht.recvData, ht.gotFin, ?_⟩
        dsimp only
        rw [e₃]
        split_ifs with hf
        · exact .inr ⟨hf.2, rfl, by simp [hf.1]⟩
        · exact .inl rfl
      · obtain rfl := hfin hf
        cases h
        rfl
    · cases h
      exact ⟨[], .nil (hs.symm ▸ hq)⟩

/-- What the trimming to the window leaves of a segment. -/
def TrimmedTo (w : ℕ) (c c' : TcpSeg) : Prop :=
  (c' = c ∧ c.tcplen ≤ w) ∨
    (∃ m, m ≤ c.len ∧ c' = c.clearFin.cut m ∧ c'.tcplen = w ∧ w < c.tcplen)

/-- The trimmings only cut bytes off the end. -/
theorem bytes_merged {w : ℕ} {r : U32} {q q' : List TcpSeg} {c c₁ c' : TcpSeg}
    (ht : TrimmedTo w c c₁) (hm : Merged r c₁ q c' q') :
    ∃ m, bytes c'.p = (bytes c.p).take m := by
  have h₁ : ∃ m, bytes c₁.p = (bytes c.p).take m := by
    rcases ht with ⟨rfl, -⟩ | ⟨m, -, rfl, -, -⟩
    · exact ⟨_, (List.take_length).symm⟩
    · exact ⟨m, bytes_pbufRealloc c.p m⟩
  obtain ⟨m₁, h₁⟩ := h₁
  cases hm with
  | same => exact ⟨m₁, h₁⟩
  | fin d _ _ _ _ _ => exact ⟨m₁, h₁⟩
  | cut m _ _ _ =>
    refine ⟨min m m₁, ?_⟩
    rw [← List.take_take, ← h₁]
    exact bytes_pbufRealloc c₁.p m

/-- A segment that is next in sequence is taken, with what waits behind it on ooseq. -/
theorem tcpReceiveInseq_took (hQ : Shifts Q) {s s' : St W} {c : TcpSeg}
    (hw : s.pcb.rcvWnd ≤ 65535) (hw0 : 0 < s.pcb.rcvWnd)
    (hq : OosChain (Q n) s.pcb.rcvNxt (-1) s.pcb.ooseq) (hc : c.Wf) (hcl : c.len ≤ 65507)
    (hc0 : c.tcphdr.seqno = s.pcb.rcvNxt) (hsyn : c.tcphdr.flags.syn = true → s.pcb.ooseq = [])
    (hQc : ∀ c₁ c' q', TrimmedTo s.pcb.rcvWnd c c₁ →
      Merged s.pcb.rcvNxt c₁ s.pcb.ooseq c' q' → Q n 0 c')
    (h : tcpReceiveInseq s c = .ok s') :
    ∃ c' segs m, bytes c'.p = (bytes c.p).take m ∧ TookSegs Q n (c' :: segs) s s' := by
  obtain ⟨c₁, h₁, h⟩ := Run.bind_eq_ok.mp h
  obtain ⟨⟨c', q'⟩, h₂, h⟩ := Run.bind_eq_ok.mp h
  obtain ⟨s₁, h₃, h⟩ := Run.bind_eq_ok.mp h
  obtain ⟨s₂, h₄, h⟩ := Run.bind_eq_ok.mp h
  dsimp only at h₃ h₄
  cases h
  have hctl := c.tcplen_le
  have ht := trimWnd_spec (by omega) hw0 h₁
  have hc₁ : c₁.tcphdr.seqno = s.pcb.rcvNxt ∧ c₁.len = totLen c₁.p ∧ c₁.len ≤ 65507 ∧
      c₁.tcphdr.flags.syn = c.tcphdr.flags.syn := by
    rcases ht with ⟨rfl, hle⟩ | ⟨m, hm, rfl, hle, hgt⟩
    · exact ⟨hc0, hc.len_eq, hcl, rfl⟩
    · exact ⟨hc0, hc.clearFin_cut hm, hm.trans hcl, rfl⟩
  obtain ⟨g1, g2, g3, g4⟩ := hc₁
  have g5 := c₁.tcplen_le
  obtain ⟨k1, k2, -⟩ := mergeOoseq_spec hq le_rfl (pos_eq_zero g1) (by omega) (by rwa [g4]) h₂
  have hQ' := hQc c₁ c' q' ht k2
  have hc' : c'.tcphdr.seqno = s.pcb.rcvNxt ∧ c'.len = totLen c'.p ∧ c'.len ≤ 65507 := by
    cases k2 with
    | same => exact ⟨g1, g2, g3⟩
    | fin d hd hdf hle hf hs => exact ⟨g1, g2, g3⟩
    | cut m hm hf hs =>
      refine ⟨g1, ?_, hm.trans g3⟩
      show m = totLen (pbufRealloc c₁.p m)
      rw [totLen_pbufRealloc]
      omega
  have hfin : c'.tcphdr.flags.fin = true → q' = [] := by
    intro hf
    cases k2 with
    | same =>
      unfold mergeOoseq at h₂
      rw [if_pos hf] at h₂
      cases h₂
      rfl
    | fin => rfl
    | cut m hm hf' hs =>
      rw [cut_hdr, hf'] at hf
      cases hf
  obtain ⟨b1, b2, b3⟩ := hc'
  have b5 := c'.tcplen_le
  rw [u16_of_lt (by omega)] at h₃
  have t := tcpReceiveTake_took (by exact b1) h₃
  have t₁ : Took [c'] s s₁ :=
    ⟨t.rcvNxt, t.rcvWnd, t.data, t.recvData, t.gotFin, t.state⟩
  have hn := t₁.rcvNxt
  have hwn := t₁.rcvWnd
  simp only [seqLen_cons, seqLen_nil, Nat.add_zero] at hn hwn
  have e5 : s₁.pcb.ooseq = q' := congrArg RcvView.ooseq (tcpReceiveTake_ok h₃).2.2
  have hch : OosChain (Q (n + c'.tcplen)) s₁.pcb.rcvNxt (-1) q' := by
    rw [hn]
    exact (k1.advance (by omega) (fun p d => hQ n _ p d) (by omega)).mono (by omega)
  obtain ⟨segs, t₂⟩ := tcpReceiveDequeue_took hQ (by omega) e5 hch h₄
  have hall : TookSegs Q n (c' :: segs) s s₂ := .cons t₁ b2 hQ' (fun hf => ?_) t₂
  · obtain ⟨m, hm⟩ := bytes_merged ht k2
    exact ⟨c', segs, m, hm, hall.congr (rcvView_tcpAck s₂)⟩
  · obtain rfl := hfin hf
    cases h₄
    exact e5

end Take

end Rudp

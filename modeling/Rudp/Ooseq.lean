import Rudp.Owed
import Rudp.Timing
import Rudp.Window

/-!
# The representation of ooseq

`OosSorted r lo q` says of ooseq `q` what the code relies on: as seen from `r` (`rcv_nxt`) the segments
are sorted and do not overlap in their data, only the last one carries FIN, and each occupies
sequence numbers. Nothing is said of where they end: with a window of 0 a segment `2^31 - 1` ahead
passes for one in the window.

Results:
* `oosInsert_outcome`: what the walk over ooseq does with an arriving segment.
* `ooseq_represented`: in every run, whatever the segments hold, ooseq is so.
-/

namespace Rudp

open Serial

variable {W : Type} {s s' : St W} {app : App W}

/-! ## The queue -/

/-- A segment without SYN whose length is that of its chain, and which occupies sequence numbers. -/
structure TcpSeg.Queued (c : TcpSeg) : Prop extends c.Wf where
  syn : c.tcphdr.flags.syn = false

/-- The queue is sorted, and its first segment is not before `lo`. -/
def OosSorted (r : U32) : ℤ → List TcpSeg → Prop
  | _, [] => True
  | lo, c :: q =>
    lo ≤ c.pos r ∧ c.Queued ∧ (c.tcphdr.flags.fin = true → q = []) ∧
      OosSorted r (max (c.pos r + 1) (c.pos r + c.len)) q

section Sorted

variable {r : U32} {lo lo' : ℤ} {c d : TcpSeg} {q pre rest : List TcpSeg}

theorem OosSorted.mono (hlo : lo' ≤ lo) (h : OosSorted r lo q) : OosSorted r lo' q := by
  cases q with
  | nil => trivial
  | cons c q => exact ⟨hlo.trans h.1, h.2⟩

theorem OosSorted.forall (h : OosSorted r lo q) : ∀ c ∈ q, c.Queued ∧ lo ≤ c.pos r := by
  induction q generalizing lo with
  | nil => simp
  | cons c q ih =>
    obtain ⟨h1, h2, -, h4⟩ := h
    intro d hd
    rcases List.mem_cons.mp hd with rfl | hd
    · exact ⟨h2, h1⟩
    · obtain ⟨he, hl⟩ := ih h4 d hd
      exact ⟨he, by omega⟩

theorem OosSorted.drop (h : OosSorted r lo (pre ++ rest)) : OosSorted r lo rest := by
  induction pre generalizing lo with
  | nil => exact h
  | cons d pre ih =>
    obtain ⟨h1, -, -, h4⟩ := h
    exact ih (h4.mono (by omega))

/-- Only the last segment carries FIN. -/
theorem OosSorted.fin_last (h : OosSorted r lo (pre ++ c :: rest)) :
    ∀ d ∈ pre, d.tcphdr.flags.fin = false := by
  induction pre generalizing lo with
  | nil => simp
  | cons d pre ih =>
    obtain ⟨-, -, h3, h4⟩ := h
    intro e he
    rcases List.mem_cons.mp he with rfl | he
    · by_contra hf
      exact absurd (h3 (by simpa using hf)) (by simp)
    · exact ih h4 e he

/-- What comes before ends before what comes behind. -/
theorem OosSorted.apart (h : OosSorted r lo (pre ++ rest)) :
    ∀ c ∈ pre, ∀ d ∈ rest, c.pos r + 1 ≤ d.pos r ∧ c.pos r + c.len ≤ d.pos r := by
  induction pre generalizing lo with
  | nil => simp
  | cons e pre ih =>
    obtain ⟨-, -, -, h4⟩ := h
    intro c hc d hd
    rcases List.mem_cons.mp hc with rfl | hc
    · have hle := (h4.forall d (List.mem_append_right pre hd)).2
      exact ⟨by omega, by omega⟩
    · exact ih h4 c hc d hd

end Sorted

/-! ## Segments ahead of `rcv_nxt` -/

section Ahead

variable {r : U32} {c d : TcpSeg}

theorem TcpSeg.pos_lt (c : TcpSeg) (r : U32) : c.pos r < 2147483648 := dist_upper _ _

/-- Two segments ahead of `r` are less than half the sequence space apart. -/
theorem dist_seqno (hc : 0 ≤ c.pos r) (hd : 0 ≤ d.pos r) :
    dist c.tcphdr.seqno d.tcphdr.seqno = c.pos r - d.pos r := by
  have h₁ := c.pos_lt r
  have h₂ := d.pos_lt r
  exact dist_eq_sub (by decide) r (inHalf_32.mpr (by unfold TcpSeg.pos at *; omega))

theorem seqno_eq_iff (hc : 0 ≤ c.pos r) (hd : 0 ≤ d.pos r) :
    c.tcphdr.seqno = d.tcphdr.seqno ↔ c.pos r = d.pos r := by
  constructor
  · intro h
    unfold TcpSeg.pos
    rw [h]
  · intro h
    exact dist_eq_zero (by rw [dist_seqno hc hd]; omega)

theorem seqno_lt_iff (hc : 0 ≤ c.pos r) (hd : 0 ≤ d.pos r) :
    tcpSeqLt c.tcphdr.seqno d.tcphdr.seqno ↔ c.pos r < d.pos r := by
  unfold tcpSeqLt
  rw [dist_seqno hc hd]
  omega

theorem seqno_gt_iff (hc : 0 ≤ c.pos r) (hd : 0 ≤ d.pos r) :
    tcpSeqGt c.tcphdr.seqno d.tcphdr.seqno ↔ d.pos r < c.pos r := by
  unfold tcpSeqGt
  rw [dist_seqno hc hd]
  omega

/-- Strictly between two segments. -/
theorem seqno_between_iff {e : TcpSeg} (hc : 0 ≤ c.pos r) (hd : 0 ≤ d.pos r) (he : 0 < e.pos r) :
    tcpSeqBetween c.tcphdr.seqno (d.tcphdr.seqno + 1) (e.tcphdr.seqno - 1) ↔
      d.pos r < c.pos r ∧ c.pos r < e.pos r := by
  have h₁ := c.pos_lt r
  have h₂ := d.pos_lt r
  have h₃ := e.pos_lt r
  have hcd := dist_seqno hc hd
  have hce := dist_seqno hc he.le
  have hd1 : dist (d.tcphdr.seqno + 1) d.tcphdr.seqno = 1 := by
    rw [dist_add_one _ _ (by rw [dist_self]; omega), dist_self, zero_add]
  have he1 : dist (e.tcphdr.seqno - 1) e.tcphdr.seqno = -1 := by
    rw [dist_sub_one _ _ (by rw [dist_self]; omega), dist_self, zero_sub]
  have hlow : dist c.tcphdr.seqno (d.tcphdr.seqno + 1) = c.pos r - d.pos r - 1 := by
    rw [dist_eq_sub (by decide) d.tcphdr.seqno (inHalf_32.mpr (by omega)), hcd, hd1]
  have hhigh : dist c.tcphdr.seqno (e.tcphdr.seqno - 1) = c.pos r - e.pos r + 1 := by
    rw [dist_eq_sub (by decide) e.tcphdr.seqno (inHalf_32.mpr (by omega)), hce, he1]
    omega
  unfold tcpSeqBetween tcpSeqGeq tcpSeqLeq
  rw [hlow, hhigh]
  omega

/-- The end of a segment as seen from the start of another one that does not lie far behind it. -/
theorem dist_dataEnd_seqno (hc : 0 ≤ c.pos r) (hd : 0 ≤ d.pos r)
    (h : c.pos r - d.pos r + c.len < 2147483648) :
    dist c.dataEnd d.tcphdr.seqno = c.pos r - d.pos r + c.len := by
  have hcd := dist_seqno hc hd
  rw [← hcd] at h ⊢
  exact dist_add_u32 _ _ _ h

theorem dataEnd_gt_seqno (hc : 0 ≤ c.pos r) (hd : 0 ≤ d.pos r) (hcd : c.pos r ≤ d.pos r)
    (hl : c.len ≤ 65535) :
    tcpSeqGt c.dataEnd d.tcphdr.seqno ↔ d.pos r < c.pos r + c.len := by
  unfold tcpSeqGt
  rw [dist_dataEnd_seqno hc hd (by omega)]
  omega

/-- The ends of two segments, one of which can lie more than half the sequence space behind the
    other. -/
theorem dist_dataEnd_dataEnd (hc : 0 ≤ c.pos r) (hd : 0 ≤ d.pos r) :
    dist c.dataEnd d.dataEnd = (c.pos r + c.len - (d.pos r + d.len)).bmod (2 ^ 32) := by
  have he : c.dataEnd - d.dataEnd =
      (c.tcphdr.seqno - d.tcphdr.seqno) + BitVec.ofInt 32 ((c.len : ℤ) - d.len) := by
    unfold TcpSeg.dataEnd u32
    rw [← BitVec.ofInt_natCast, ← BitVec.ofInt_natCast, sub_eq_add_neg (c.len : ℤ),
      BitVec.ofInt_add, BitVec.ofInt_neg]
    ring
  have hcd := dist_seqno hc hd
  unfold Serial.dist at hcd ⊢
  rw [he, BitVec.toInt_add, BitVec.toInt_ofInt, Int.add_bmod_bmod, hcd]
  congr 1
  ring

/-- A segment is covered when it ends no later, or so far behind that the comparison fails. -/
theorem dataEnd_geq_dataEnd (hc : 0 ≤ c.pos r) (hcd : c.pos r ≤ d.pos r) (hcl : c.len ≤ 65535)
    (hdl : d.len ≤ 65535) : tcpSeqGeq c.dataEnd d.dataEnd ↔
      d.pos r + d.len ≤ c.pos r + c.len ∨ c.pos r + c.len + 2147483648 < d.pos r + d.len := by
  have hd := d.pos_lt r
  unfold tcpSeqGeq
  rw [dist_dataEnd_dataEnd hc (hc.trans hcd), Int.bmod_def]
  split <;> omega

/-- The distance between two segments that overlap, as the code computes a length from it. -/
theorem u16_dist_seqno (hc : 0 ≤ c.pos r) (hcd : c.pos r ≤ d.pos r)
    (h : d.pos r - c.pos r ≤ 65535) :
    (u16 (d.tcphdr.seqno - c.tcphdr.seqno).toNat : ℤ) = d.pos r - c.pos r := by
  have hs := dist_seqno (c := d) (d := c) (hc.trans hcd) hc
  have ht := u32_toNat_sub d.tcphdr.seqno c.tcphdr.seqno (by omega)
  rw [u16_of_lt (by omega), ht, hs]

end Ahead

/-! ## Where a segment goes -/

/-- The segment behind the check for an overrun of the window (tcp_in.c:1519-1536). -/
def windowTrim (r : U32) (w : ℕ) (c : TcpSeg) : Except Fault TcpSeg :=
  if tcpSeqGt (u32 (u16 c.tcplen) + c.tcphdr.seqno) (r + u32 w) then do
    lwipAssert "tcp_receive: segment not trimmed correctly to rcv_wnd\n"
      (c.tcphdr.seqno + u32 (u16 (windowCut r w c).tcplen) = r + u32 w)
    .ok (windowCut r w c)
  else .ok c

/-- What the walk over ooseq `q` does with the segment `c`: it is discarded for one at the same place
    that holds no less or for a FIN, it is put in front of some `rest`, or it goes behind the last
    segment. -/
inductive OosOutcome (r : U32) (w : ℕ) (c : TcpSeg) (q : List TcpSeg) :
    Option (Except Fault (List TcpSeg)) → Prop
  | held {d : TcpSeg} : d ∈ q → d.pos r = c.pos r → c.len ≤ d.len → OosOutcome r w c q none
  | closed {d : TcpSeg} : d ∈ q → d.tcphdr.flags.fin = true → d.pos r < c.pos r →
    OosOutcome r w c q none
  | put {pre rest : List TcpSeg} : q = pre ++ rest → (rest = [] → q = []) → InsertedAt r c pre rest →
    OosOutcome r w c q (some (.ok
      (modifyLast (oosTrimPrev · c.tcphdr.seqno) pre ++ tcpOosInsertSegment c rest)))
  | append : q ≠ [] → (∀ d ∈ q, d.pos r < c.pos r) → (∀ d ∈ q, d.tcphdr.flags.fin = false) →
    OosOutcome r w c q (some ((modifyLast (oosTrimPrev · c.tcphdr.seqno) q ++ [·]) <$>
      windowTrim r w c))

section Outcome

variable {r : U32} {w : ℕ} {lo : ℤ} {c d : TcpSeg} {q : List TcpSeg}

/-- The segment goes behind the last one, `d`. -/
theorem oosAppend_outcome (hd : d.pos r < c.pos r) :
    OosOutcome r w c [d] (oosAppend r w c d) := by
  unfold oosAppend
  dsimp only
  split
  · next hf => exact .closed (List.mem_singleton_self d) hf hd
  · next hf =>
    have he : (if tcpSeqGt (u32 (u16 c.tcplen) + c.tcphdr.seqno) (r + u32 w) then
        some (do
          lwipAssert "tcp_receive: segment not trimmed correctly to rcv_wnd\n"
            (c.tcphdr.seqno + u32 (u16 (windowCut r w c).tcplen) = r + u32 w)
          Except.ok [oosTrimPrev d c.tcphdr.seqno, windowCut r w c])
        else some (.ok [oosTrimPrev d c.tcphdr.seqno, c])) =
        some ((modifyLast (oosTrimPrev · c.tcphdr.seqno) [d] ++ [·]) <$> windowTrim r w c) := by
      unfold windowTrim
      split
      · generalize lwipAssert "tcp_receive: segment not trimmed correctly to rcv_wnd\n"
          (c.tcphdr.seqno + u32 (u16 (windowCut r w c).tcplen) = r + u32 w) = x
        cases x <;> rfl
      · rfl
    have h : OosOutcome r w c [d] (some ((modifyLast (oosTrimPrev · c.tcphdr.seqno) [d] ++ [·]) <$>
        windowTrim r w c)) := .append (by simp) (by simpa using hd) (by simpa using hf)
    rw [← he] at h
    exact h

/-- The same behind one more segment. -/
theorem OosOutcome.cons {prev : TcpSeg} {o : Option (Except Fault (List TcpSeg))}
    (hprev : prev.pos r < c.pos r) (hf : prev.tcphdr.flags.fin = false)
    (hd : d.pos r < c.pos r) (h : OosOutcome r w c (d :: q) o) :
    OosOutcome r w c (prev :: d :: q) (o.map fun q => (prev :: ·) <$> q) := by
  cases h with
  | held he hp hl => exact .held (List.mem_cons_of_mem _ he) hp hl
  | closed he hef hp => exact .closed (List.mem_cons_of_mem _ he) hef hp
  | @put pre rest hq hne hi =>
    obtain ⟨i1, i2, i3, i4⟩ := hi
    cases pre with
    | nil =>
      rw [List.nil_append] at hq
      have := i3 d (by rw [← hq]; simp)
      omega
    | cons e pre =>
      rw [hq]
      exact .put rfl (fun h => absurd (hne h) (by simp))
        ⟨List.forall_mem_cons.mpr ⟨hprev, i1⟩, List.forall_mem_cons.mpr ⟨hf, i2⟩, i3, i4⟩
  | append hne h1 h2 =>
    have h : OosOutcome r w c (prev :: d :: q)
        (some ((modifyLast (oosTrimPrev · c.tcphdr.seqno) (prev :: d :: q) ++ [·]) <$>
          windowTrim r w c)) :=
      .append (by simp) (List.forall_mem_cons.mpr ⟨hprev, h1⟩) (List.forall_mem_cons.mpr ⟨hf, h2⟩)
    generalize windowTrim r w c = x at h ⊢
    cases x <;> exact h

theorem oosTrimPrev_same {prev : TcpSeg} (hp : 0 ≤ prev.pos r) (hc : 0 ≤ c.pos r)
    (hl : prev.len ≤ 65535) (hlt : prev.pos r ≤ c.pos r) (hle : prev.pos r + prev.len ≤ c.pos r) :
    oosTrimPrev prev c.tcphdr.seqno = prev := by
  unfold oosTrimPrev
  rw [if_neg (mt (dataEnd_gt_seqno hp hc hlt hl).mp (by omega))]

/-- What happens at one segment of the walk, `next`, when the walk goes on as in `ho`. -/
theorem oosWalk_step {prev next : TcpSeg} (hq : OosSorted r 1 (prev :: next :: q))
    (hc : 0 < c.pos r) (hlt : prev.pos r < c.pos r)
    (ho : next.pos r < c.pos r → q ≠ [] → OosOutcome r w c (next :: q) (oosWalk r w c next q)) :
    OosOutcome r w c (prev :: next :: q) (oosWalk r w c prev (next :: q)) := by
  obtain ⟨h1, h2, h3, h4⟩ := hq
  have hn0 : prev.pos r + 1 ≤ next.pos r := (le_max_left _ _).trans h4.1
  have hn1 : prev.pos r + prev.len ≤ next.pos r := (le_max_right _ _).trans h4.1
  have hpf : prev.tcphdr.flags.fin = false := by
    by_contra hf
    exact absurd (h3 (by simpa using hf)) (by simp)
  have heq := seqno_eq_iff (r := r) (c := c) (d := next) hc.le (by omega)
  have hgt := seqno_gt_iff (r := r) (c := c) (d := next) hc.le (by omega)
  have hbet := seqno_between_iff (r := r) (c := c) (d := prev) (e := next) hc.le (by omega) (by omega)
  have hrest : ∀ d ∈ next :: q, next.pos r ≤ d.pos r := by
    have h5 : OosSorted r (next.pos r) (next :: q) := ⟨le_rfl, h4.2⟩
    exact fun d hd => (h5.forall d hd).2
  rw [oosWalk]
  split
  · next c1 =>
    have hp := heq.mp c1
    split
    · next c2 =>
      -- same sequence number, the old segment holds less
      have e := oosTrimPrev_same (by omega) hc.le h2.len_le
        hlt.le (by omega)
      have h : OosOutcome r w c (prev :: next :: q) (some (.ok
          (modifyLast (oosTrimPrev · c.tcphdr.seqno) [prev] ++ tcpOosInsertSegment c (next :: q)))) := by
        refine .put rfl (by simp) ⟨by simpa using hlt, by simpa using hpf, fun d hd => ?_,
          by simpa using fun _ => c2⟩
        have hle := hrest d hd
        omega
      rw [modifyLast, e] at h
      exact h
    · next c2 => exact .held (d := next) (by simp) hp.symm (by omega)
  · next c1 =>
    split
    · next c3 =>
      -- between prev and next
      obtain ⟨-, hb⟩ := hbet.mp c3
      have hsplit : prev :: next :: q = [prev] ++ next :: q := rfl
      refine .put hsplit (by simp) ⟨by simpa using hlt, by simpa using hpf,
        fun d hd => ?_, fun d hd hdp => ?_⟩
      · have hle := hrest d hd
        omega
      · simp only [List.head?_cons, Option.mem_def, Option.some.injEq] at hd
        subst hd
        omega
    · next c3 =>
      have hltn : next.pos r < c.pos r := by
        have hne := mt heq.mpr c1
        have hnb := mt hbet.mpr c3
        omega
      split
      · next c4 =>
        obtain ⟨rfl, -⟩ := c4
        exact (oosAppend_outcome hltn).cons hlt hpf hltn
      · next c4 =>
        exact (ho hltn fun h => c4 ⟨h, hgt.mpr hltn⟩).cons hlt hpf hltn

/-- The walk behind its first turn. -/
theorem oosWalk_outcome {prev next : TcpSeg} (hq : OosSorted r 1 (prev :: next :: q))
    (hc : 0 < c.pos r) (hlt : prev.pos r < c.pos r) :
    OosOutcome r w c (prev :: next :: q) (oosWalk r w c prev (next :: q)) := by
  induction q generalizing prev next with
  | nil => exact oosWalk_step hq hc hlt fun _ hne => absurd rfl hne
  | cons n q ih =>
    have h4 : OosSorted r 1 (next :: n :: q) := hq.2.2.2.mono (by have := hq.1; omega)
    exact oosWalk_step hq hc hlt fun hn _ => ih h4 hn

/-- What happens to a segment ahead of `rcv_nxt`. -/
theorem oosInsert_outcome (hq : OosSorted r 1 q) (hc : 0 < c.pos r) :
    OosOutcome r w c q (oosInsert r w c q) := by
  cases q with
  | nil =>
    have h : OosOutcome r w c [] (some (.ok
        (modifyLast (oosTrimPrev · c.tcphdr.seqno) [] ++ tcpOosInsertSegment c []))) :=
      .put rfl (fun _ => rfl) ⟨by simp, by simp, by simp, by simp⟩
    have e : tcpOosInsertSegment c [] = [c] := by
      unfold tcpOosInsertSegment oosCovered
      split <;> rfl
    rw [e] at h
    exact h
  | cons next q =>
    have hn := hq.1
    have heq := seqno_eq_iff (r := r) (c := c) (d := next) hc.le (by omega)
    have hl := seqno_lt_iff (r := r) (c := c) (d := next) hc.le (by omega)
    have hgt := seqno_gt_iff (r := r) (c := c) (d := next) hc.le (by omega)
    have hrest : ∀ d ∈ next :: q, next.pos r ≤ d.pos r := by
      have h5 : OosSorted r (next.pos r) (next :: q) := ⟨le_rfl, hq.2⟩
      exact fun d hd => (h5.forall d hd).2
    have hput (hle : c.pos r ≤ next.pos r) (hlen : next.pos r = c.pos r → next.len < c.len) :
        OosOutcome r w c (next :: q) (some (.ok (tcpOosInsertSegment c (next :: q)))) := by
      have hsplit : next :: q = [] ++ next :: q := rfl
      refine .put hsplit (by simp) ⟨by simp, by simp, fun d hd => ?_, ?_⟩
      · exact hle.trans (hrest d hd)
      · simpa using hlen
    rw [oosInsert]
    split
    · next c1 =>
      have hp := heq.mp c1
      split
      · next c2 => exact hput hp.le fun _ => c2
      · next c2 => exact .held (d := next) (by simp) hp.symm (by omega)
    · next c1 =>
      split
      · next c2 =>
        have hp := hl.mp c2
        exact hput hp.le fun h => by omega
      · next c2 =>
        have hltn : next.pos r < c.pos r := by
          have hne := mt heq.mpr c1
          have hnl := mt hl.mpr c2
          omega
        split
        · next c4 =>
          obtain ⟨rfl, -⟩ := c4
          exact oosAppend_outcome hltn
        · next c4 =>
          cases q with
          | nil => exact absurd ⟨rfl, hgt.mpr hltn⟩ c4
          | cons n q => exact oosWalk_outcome hq hc hltn

end Outcome

/-! ## Insertion -/

section Insertion

variable {r : U32} {w : ℕ} {lo : ℤ} {c d : TcpSeg} {q pre rest : List TcpSeg}

theorem TcpSeg.Queued.cut {m : ℕ} (h : c.Queued) (h0 : 0 < m) (hm : m ≤ c.len) :
    (c.cut m).Queued where
  toWf := h.toWf.cut h0 hm
  syn := h.syn

theorem TcpSeg.Queued.setFin (h : c.Queued) : c.setFin.Queued where
  toWf := h.toWf.setFin
  syn := h.syn

/-- What the loop of `tcp_oos_insert_segment` removes, and whether it copies a FIN. -/
theorem oosCovered_split (hq : OosSorted r lo q) : ∃ gone rest, q = gone ++ rest ∧
    (∀ d ∈ gone, tcpSeqGeq c.dataEnd d.dataEnd) ∧
    (∀ d ∈ rest.head?, ¬ tcpSeqGeq c.dataEnd d.dataEnd) ∧
    ((oosCovered c q = (c, rest) ∧ ∀ d ∈ gone, d.tcphdr.flags.fin = false) ∨
      (rest = [] ∧ oosCovered c q = (c.setFin, []) ∧ ∃ d ∈ gone, d.tcphdr.flags.fin = true)) := by
  induction q generalizing lo with
  | nil => exact ⟨[], [], rfl, by simp, by simp, .inl ⟨rfl, by simp⟩⟩
  | cons d q ih =>
    obtain ⟨-, -, h3, h4⟩ := hq
    rw [oosCovered]
    split
    · next hcov =>
      by_cases hf : d.tcphdr.flags.fin = true
      · -- the covered segment carries FIN and is the last one
        obtain rfl := h3 hf
        rw [if_pos hf]
        exact ⟨[d], [], rfl, by simpa using hcov, by simp, .inr ⟨rfl, rfl, d, by simp, hf⟩⟩
      · obtain ⟨gone, rest, e1, e2, e3, e4⟩ := ih h4
        rw [if_neg hf]
        refine ⟨d :: gone, rest, by rw [List.cons_append, ← e1],
          List.forall_mem_cons.mpr ⟨hcov, e2⟩, e3, ?_⟩
        rcases e4 with ⟨e4, e5⟩ | ⟨e4, e5, x, hx, hxf⟩
        · exact .inl ⟨e4, List.forall_mem_cons.mpr ⟨by simpa using hf, e5⟩⟩
        · exact .inr ⟨e4, e5, x, List.mem_cons_of_mem _ hx, hxf⟩
    · next hcov =>
      exact ⟨[], d :: q, rfl, by simp, by simpa using hcov, .inl ⟨rfl, by simp⟩⟩

/-- The first segment that is left starts behind the inserted one. -/
theorem pos_lt_uncovered {gone : List TcpSeg} (hq : OosSorted r (c.pos r) (gone ++ d :: rest))
    (hhead : ∀ e ∈ (gone ++ d :: rest).head?, e.pos r = c.pos r → e.len < c.len)
    (h0 : 0 ≤ c.pos r) (hl : c.len ≤ 65535) (hcov : ¬ tcpSeqGeq c.dataEnd d.dataEnd) :
    c.pos r < d.pos r := by
  cases gone with
  | nil =>
    obtain ⟨hle, hd, -, -⟩ := hq
    have hne : d.pos r ≠ c.pos r := by
      intro heq
      have hlen := hhead d (by simp) heq
      exact hcov ((dataEnd_geq_dataEnd h0 heq.ge hl hd.len_le).mpr (.inl (by omega)))
    omega
  | cons g gone =>
    have hg := (hq.forall g (by simp)).2
    have hd := (hq.apart g (by simp) d (by simp)).1
    omega

/-- The queue from the inserted segment on stays sorted. -/
theorem tcpOosInsertSegment_sorted (hq : OosSorted r (c.pos r) q)
    (hhead : ∀ d ∈ q.head?, d.pos r = c.pos r → d.len < c.len) (h0 : 0 ≤ c.pos r)
    (hc : c.Queued) : OosSorted r (c.pos r) (tcpOosInsertSegment c q) := by
  unfold tcpOosInsertSegment
  split
  · exact ⟨le_rfl, hc, fun _ => rfl, trivial⟩
  next hf =>
  obtain ⟨gone, rest, e1, e2, e3, ⟨e4, -⟩ | ⟨-, e4, -⟩⟩ := oosCovered_split (c := c) hq
  · subst e1
    rw [e4]
    cases rest with
    | nil => exact ⟨le_rfl, hc, fun _ => rfl, trivial⟩
    | cons d rest =>
      have hlt := pos_lt_uncovered hq hhead h0 hc.len_le (e3 d (by simp))
      have hdr := hq.drop
      have hiff := dataEnd_gt_seqno (r := r) (c := c) (d := d) h0 (by omega) hlt.le hc.len_le
      have hl := hc.len_le
      dsimp only
      split
      · next hgt =>
        have hgt' := hiff.mp hgt
        have hm := u16_dist_seqno (r := r) (c := c) (d := d) h0 hlt.le (by omega)
        refine ⟨le_rfl, hc.cut (by omega) (by omega), fun h => absurd h hf, ?_, hdr.2⟩
        rw [cut_pos, cut_len]
        omega
      · next hgt =>
        have hle := mt hiff.mpr hgt
        exact ⟨le_rfl, hc, fun h => absurd h hf, by omega, hdr.2⟩
  · rw [e4]
    exact ⟨le_rfl, hc.setFin, fun _ => rfl, trivial⟩

/-- The trimming of the segment in front leaves a segment that ends before the inserted one. -/
theorem oosTrimPrev_queued {prev : TcpSeg} (hp : 0 ≤ prev.pos r) (hlt : prev.pos r < c.pos r)
    (hw : prev.Queued) : (oosTrimPrev prev c.tcphdr.seqno).Queued ∧
      (oosTrimPrev prev c.tcphdr.seqno).tcphdr = prev.tcphdr ∧
      ((oosTrimPrev prev c.tcphdr.seqno).len : ℤ) = min (prev.len : ℤ) (c.pos r - prev.pos r) ∧
      bytes (oosTrimPrev prev c.tcphdr.seqno).p =
        (bytes prev.p).take (oosTrimPrev prev c.tcphdr.seqno).len := by
  have hl := hw.len_le
  have hiff := dataEnd_gt_seqno (r := r) (c := prev) (d := c) hp (by omega) hlt.le hl
  unfold oosTrimPrev
  split
  · next hgt =>
    have hgt' := hiff.mp hgt
    have hm := u16_dist_seqno (r := r) (c := prev) (d := c) hp hlt.le (by omega)
    refine ⟨hw.cut (by omega) (by omega), rfl, ?_, bytes_pbufRealloc _ _⟩
    rw [cut_len]
    omega
  · next hgt =>
    have hle := mt hiff.mpr hgt
    refine ⟨hw, rfl, by omega, (List.take_of_length_le ?_).symm⟩
    rw [length_bytes, ← hw.len_eq]

/-- Replacing the end of a queue, with the segment in front of it trimmed. -/
theorem OosSorted.splice {new : List TcpSeg} (hlo : 0 ≤ lo) (hq : OosSorted r lo (pre ++ rest))
    (hlt : ∀ d ∈ pre, d.pos r < c.pos r) (hf : ∀ d ∈ pre, d.tcphdr.flags.fin = false)
    (hloc : lo ≤ c.pos r) (hnew : OosSorted r (c.pos r) new) :
    OosSorted r lo (modifyLast (oosTrimPrev · c.tcphdr.seqno) pre ++ new) := by
  induction pre generalizing lo with
  | nil => exact hnew.mono hloc
  | cons d pre ih =>
    obtain ⟨h1, h2, h3, h4⟩ := hq
    have hd := hlt d List.mem_cons_self
    have hdf := hf d List.mem_cons_self
    cases pre with
    | nil =>
      obtain ⟨g1, g2, g3, -⟩ := oosTrimPrev_queued (by omega) hd h2
      have hp : (oosTrimPrev d c.tcphdr.seqno).pos r = d.pos r := by
        unfold TcpSeg.pos
        rw [g2]
      refine ⟨h1.trans hp.ge, g1, fun h => ?_, hnew.mono ?_⟩
      · rw [g2, hdf] at h
        cases h
      · dsimp only
        omega
    | cons e pre =>
      rw [modifyLast_cons_cons]
      have he := hlt e (by simp)
      have hle := h4.1
      exact ⟨h1, h2, fun h => absurd h (by simp [hdf]), ih (by omega) h4
        (fun x hx => hlt x (List.mem_cons_of_mem _ hx))
        (fun x hx => hf x (List.mem_cons_of_mem _ hx)) (by omega)⟩

end Insertion

/-! ## Insertion of an arriving segment -/

section Arrival

variable {r : U32} {w : ℕ} {c c' : TcpSeg} {q q' : List TcpSeg} {pcb : Pcb} {a : U32}

/-- A sequence number in the window, which is ahead of `rcv_nxt`. -/
theorem inWindow_ahead (hw : pcb.rcvWnd ≤ 65535) (h : inWindow pcb a) :
    0 ≤ dist a pcb.rcvNxt ∧ (dist a pcb.rcvNxt < pcb.rcvWnd ∨
      (pcb.rcvWnd = 0 ∧ dist a pcb.rcvNxt = 2147483647)) := by
  have hu := dist_upper a pcb.rcvNxt
  by_cases hin : dist a pcb.rcvNxt < 2147483647 ∨ 0 < pcb.rcvWnd
  · obtain ⟨h0, h1⟩ := (inWindow_iff hw hin).mp h
    exact ⟨h0, .inl h1⟩
  · exact ⟨by omega, .inr ⟨by omega, by omega⟩⟩

/-- A segment that starts in the window, as the check of `tcp_receive` sees it. -/
def StartsInWindow (r : U32) (w : ℕ) (c : TcpSeg) : Prop :=
  c.pos r < w ∨ (w = 0 ∧ c.pos r = 2147483647)

theorem windowTrim_queued (hw : w ≤ 65535) (hc : c.Queued) (hl : c.len ≤ 65507)
    (h0 : 0 ≤ c.pos r) (ha : StartsInWindow r w c) (h : windowTrim r w c = .ok c') :
    c'.Queued ∧ c'.pos r = c.pos r := by
  unfold windowTrim at h
  split at h
  · next hgt =>
    obtain ⟨_, -, h⟩ := Run.bind_eq_ok.mp h
    cases h
    rcases ha with hlt | ⟨rfl, hp⟩
    · exact ⟨⟨(windowCut_wf hc.toWf h0 hlt hw hgt).1, hc.syn⟩, rfl⟩
    · -- the end of such a segment is behind the window as the code sees it
      exfalso
      have htl := c.tcplen_le
      have ht0 := hc.tcplen_pos
      have hd : dist c.tcphdr.seqno r = 2147483647 := hp
      rw [u16_of_lt (by omega), BitVec.add_comm] at hgt
      unfold tcpSeqGt u32 at hgt
      rw [BitVec.add_zero] at hgt
      unfold Serial.dist at hd hgt
      rw [show c.tcphdr.seqno + BitVec.ofNat 32 c.tcplen - r =
        (c.tcphdr.seqno - r) + BitVec.ofNat 32 c.tcplen by ring, BitVec.toInt_add, hd,
        BitVec.toInt_ofNat', Int.add_bmod_bmod, Int.bmod_def] at hgt
      split at hgt <;> omega
  · cases h
    exact ⟨hc, rfl⟩

/-- ooseq stays sorted when a segment ahead of `rcv_nxt` arrives. -/
theorem oosInsert_sorted (hw : w ≤ 65535) (hq : OosSorted r 1 q) (hc : c.Queued)
    (hl : c.len ≤ 65507) (h0 : 0 < c.pos r) (ha : StartsInWindow r w c)
    (h : oosInsert r w c q = some (.ok q')) : OosSorted r 1 q' := by
  have ho := oosInsert_outcome (w := w) hq h0
  rw [h] at ho
  generalize ho' : some (.ok q' : Except Fault (List TcpSeg)) = o at ho
  cases ho with
  | held => cases ho'
  | closed => cases ho'
  | @put pre rest hpre hne hi =>
    cases ho'
    subst hpre
    obtain ⟨i1, i2, i3, i4⟩ := hi
    have hrest : OosSorted r (c.pos r) rest := by
      cases rest with
      | nil => trivial
      | cons d rest => exact ⟨i3 d (by simp), hq.drop.2⟩
    exact hq.splice (by omega) i1 i2 (by omega) (tcpOosInsertSegment_sorted hrest i4 h0.le hc)
  | append hne h1 h2 =>
    obtain ⟨c', ht, rfl⟩ := Run.map_eq_ok.mp (Option.some.inj ho').symm
    obtain ⟨hc', hp⟩ := windowTrim_queued hw hc hl h0.le ha ht
    have hq' : OosSorted r 1 (q ++ []) := by rwa [List.append_nil]
    exact hq'.splice (by omega) h1 h2 (by omega) ⟨hp.ge, hc', fun _ => rfl, trivial⟩

end Arrival

/-! ## The segment that is next in sequence -/

section Inseq

variable {r : U32} {lo : ℤ} {c c' d : TcpSeg} {q q' : List TcpSeg} {s s' : St W}

theorem TcpSeg.Queued.tcplen_eq_len (hc : c.Queued) (hf : ¬ c.tcphdr.flags.fin = true) :
    c.tcplen = c.len := by
  rw [TcpSeg.tcplen_eq, hc.syn, Bool.or_false, if_neg hf, Nat.add_zero]

/-- The removal of what an in-sequence segment covers is that of `tcp_oos_insert_segment`. -/
theorem mergeCovered_eq (hq : OosSorted r lo q) (hc : c.Queued) (hf : ¬ c.tcphdr.flags.fin = true) :
    mergeCovered c q = oosCovered c q := by
  have he : c.tcphdr.seqno + u32 (u16 c.tcplen) = c.dataEnd := by
    have hl := hc.len_le
    rw [hc.tcplen_eq_len hf, u16_of_lt (by omega)]
    rfl
  induction q generalizing lo with
  | nil => rfl
  | cons d q ih =>
    obtain ⟨-, -, h3, h4⟩ := hq
    rw [mergeCovered, oosCovered, he, hc.syn, Bool.not_false, Bool.and_true]
    by_cases hd : d.tcphdr.flags.fin = true
    · obtain rfl := h3 hd
      rfl
    · rw [if_neg hd, ih h4]

/-- The in-sequence segment and ooseq behind their adjustment to each other. -/
theorem mergeOoseq_sorted (hq : OosSorted r 1 q) (hc : c.Queued) (hr : c.tcphdr.seqno = r)
    (h : mergeOoseq c q = .ok (c', q')) :
    c'.Queued ∧ c'.tcphdr.seqno = r ∧ c'.len ≤ c.len ∧ OosSorted r c'.tcplen q' := by
  have hl := hc.len_le
  have h0 := pos_eq_zero hr
  unfold mergeOoseq at h
  split at h
  · cases h
    exact ⟨hc, hr, le_rfl, trivial⟩
  next hf =>
  rw [mergeCovered_eq hq hc hf] at h
  obtain ⟨gone, rest, rfl, -, e3, ⟨e4, -⟩ | ⟨-, e4, -⟩⟩ := oosCovered_split (c := c) hq
  · rw [e4] at h
    have hdr := hq.drop
    cases rest with
    | nil =>
      cases h
      exact ⟨hc, hr, le_rfl, trivial⟩
    | cons d rest =>
      obtain ⟨c₁, h₁, h⟩ := Run.bind_eq_ok.mp h
      cases h
      have hp := hdr.1
      have hiff := dataEnd_gt_seqno (r := r) (c := c) (d := d) h0.ge (by omega) (by omega) hl
      have he : c.tcphdr.seqno + u32 (u16 c.tcplen) = c.dataEnd := by
        rw [hc.tcplen_eq_len hf, u16_of_lt (by omega)]
        rfl
      unfold mergeTrim at h₁
      rw [he] at h₁
      split at h₁
      · next hgt =>
        obtain ⟨_, -, h₁⟩ := Run.bind_eq_ok.mp h₁
        cases h₁
        have hlt := hiff.mp hgt
        have hm := u16_dist_seqno (r := r) (c := c) (d := d) h0.ge (by omega) (by omega)
        have ht : trimLen c (u16 (d.tcphdr.seqno - c.tcphdr.seqno).toNat) =
            u16 (d.tcphdr.seqno - c.tcphdr.seqno).toNat := by
          unfold trimLen
          rw [hc.syn]
          rfl
        rw [ht]
        have hcut : (c.cut (u16 (d.tcphdr.seqno - c.tcphdr.seqno).toNat)).Queued :=
          hc.cut (by omega) (by omega)
        have htl := hcut.tcplen_eq_len hf
        rw [cut_len] at htl
        exact ⟨hcut, hr, by rw [cut_len]; omega, by omega, hdr.2⟩
      · next hgt =>
        cases h₁
        have hle := mt hiff.mpr hgt
        have htl := hc.tcplen_eq_len hf
        exact ⟨hc, hr, le_rfl, by omega, hdr.2⟩
  · rw [e4] at h
    cases h
    exact ⟨hc.setFin, hr, le_rfl, trivial⟩

/-- The queue seen from a reference point further on. -/
theorem OosSorted.advance {t : ℕ} (ht : t ≤ lo) (h : OosSorted r lo q) :
    OosSorted (r + u32 t) (lo - t) q := by
  induction q generalizing lo with
  | nil => trivial
  | cons c q ih =>
    obtain ⟨h1, h2, h3, h4⟩ := h
    have hu := c.pos_lt r
    have hr : dist (r + u32 t) r = t := by
      rw [dist_add_u32 _ _ _ (by rw [dist_self]; omega), dist_self, zero_add]
    have hd : c.pos (r + u32 t) = c.pos r - t := by
      unfold TcpSeg.pos at *
      have e := dist_eq_sub (a := c.tcphdr.seqno) (b := r + u32 t) (by decide : 0 < 32) r
        (inHalf_32.mpr (by omega))
      rw [e, hr]
    have h5 := ih (by omega) h4
    refine ⟨by omega, h2, h3, ?_⟩
    rw [hd]
    exact h5.mono (by omega)

end Inseq

/-! ## `tcp_receive` -/

section Receive

variable {r : U32} {c : TcpSeg} {q : List TcpSeg} {seg : InSegment} {s s' : St W}

/-- The segment behind the trimming of its first edge. One that lies half the sequence space before
    `rcv_nxt` and occupies one number passes for one that reaches to `rcv_nxt`. -/
theorem tcpReceiveFirstEdge_queued (hl : 0 < seg.tcplen) (hsyn : seg.flags.syn = false)
    (h : tcpReceiveFirstEdge r seg = .ok c) : c.Queued ∧ c.len ≤ 65507 := by
  have hb := seg.bound
  have htl : seg.tcplen = seg.inseg.tcplen := rfl
  have htl' := seg.inseg.tcplen_le
  have hlen : seg.inseg.len = totLen seg.p := rfl
  have hq : seg.inseg.Queued := ⟨⟨hlen, by omega, hl⟩, hsyn⟩
  unfold tcpReceiveFirstEdge at h
  split at h
  · next ho =>
    by_cases hlow : -2147483648 < dist seg.seqno r
    · obtain ⟨o1, o2⟩ := (overlap_iff hlow hl (by omega)).mp ho
      obtain ⟨e1, e2, e3, -⟩ := trimFront_spec hlen (by omega) o1 hlow o2 h
      have hp : seg.inseg.pos r = dist seg.seqno r := rfl
      have hf : c.tcphdr.flags = seg.flags := by rw [e1]; rfl
      have ht : c.tcplen = c.len + seg.flags.finSyn := by rw [← hf]; rfl
      have ht' : seg.tcplen = totLen seg.p + seg.flags.finSyn := rfl
      exact ⟨⟨⟨e3, by omega, by omega⟩, by rw [hf]; exact hsyn⟩, by omega⟩
    · -- nothing is cut off
      have hd : dist seg.seqno r = -2147483648 := by
        have hlo := dist_lower seg.seqno r
        omega
      have hx : r - seg.seqno = BitVec.ofInt 32 2147483648 := by
        have e := eq_add_dist seg.seqno r
        rw [hd] at e
        rw [e]
        ring_nf
        rfl
      obtain ⟨_, -, h⟩ := Run.bind_eq_ok.mp h
      obtain ⟨_, -, h⟩ := Run.bind_eq_ok.mp h
      cases h
      have hdr : dist r seg.inseg.tcphdr.seqno = -2147483648 := by
        unfold Serial.dist
        rw [show r - seg.inseg.tcphdr.seqno = BitVec.ofInt 32 2147483648 from hx]
        rfl
      have hu : u16 (seg.inseg.len + 65536 - u16 (r - seg.inseg.tcphdr.seqno).toNat) =
          seg.inseg.len := by
        rw [show r - seg.inseg.tcphdr.seqno = BitVec.ofInt 32 2147483648 from hx]
        show u16 (seg.inseg.len + 65536) = seg.inseg.len
        unfold u16
        omega
      rw [hu, hdr]
      exact ⟨⟨⟨by rw [totLen_pbufSkip]; exact hlen, hq.len_le, hq.tcplen_pos⟩, hsyn⟩, by
        show seg.inseg.len ≤ 65507
        omega⟩
  · cases h
    exact ⟨hq, by omega⟩

/-- The queue behind a segment that is taken off its head. -/
theorem OosSorted.take (hc : c.tcphdr.seqno = r) (h : OosSorted r 0 (c :: q)) :
    OosSorted (r + u32 c.tcplen) 0 q := by
  obtain ⟨-, h2, h3, h4⟩ := h
  by_cases hf : c.tcphdr.flags.fin = true
  · obtain rfl := h3 hf
    trivial
  · rw [pos_eq_zero hc] at h4
    have ht := h2.tcplen_eq_len hf
    exact (h4.advance (t := c.tcplen) (by omega)).mono (by omega)

/-- What is next in sequence is taken off the queue, and nothing at `rcv_nxt` is left. -/
theorem tcpReceiveDequeue_sorted (hs : s.pcb.ooseq = q) (hq : OosSorted s.pcb.rcvNxt 0 q)
    (h : tcpReceiveDequeue q s = .ok s') : OosSorted s'.pcb.rcvNxt 1 s'.pcb.ooseq ∧
      s'.pcb.rcvWnd ≤ s.pcb.rcvWnd ∧ (4 ≤ s.pcb.state.num → 4 ≤ s'.pcb.state.num) := by
  induction q generalizing s with
  | nil =>
    cases h
    rw [hs]
    exact ⟨trivial, le_rfl, id⟩
  | cons c q ih =>
    rw [tcpReceiveDequeue] at h
    split at h
    · next heq =>
      obtain ⟨s₁, h₁, h⟩ := Run.bind_eq_ok.mp h
      have t := tcpReceiveTake_took heq h₁
      have hn := t.rcvNxt
      have hw := t.rcvWnd
      simp only [seqLen_cons, seqLen_nil, Nat.add_zero] at hn hw
      have hst : s₁.pcb.state = s.pcb.state := congrArg RcvView.state (tcpReceiveTake_ok h₁).2.2
      have hq₁ := hq.take heq
      rw [← hn] at hq₁
      dsimp only at h
      obtain ⟨g1, g2, g3⟩ := @ih _ rfl (by exact hq₁) h
      refine ⟨g1, g2.trans ?_, fun hnum => g3 ?_⟩
      · show s₁.pcb.rcvWnd ≤ s.pcb.rcvWnd
        omega
      show 4 ≤ TcpState.num (if _ then _ else _)
      split
      · decide
      · rwa [hst]
    · next hne =>
      cases h
      rw [hs]
      obtain ⟨h1, h2⟩ := hq
      have hp : c.pos s'.pcb.rcvNxt ≠ 0 := fun h => hne (dist_eq_zero h)
      exact ⟨⟨by omega, h2⟩, le_rfl, id⟩

/-- A segment that is next in sequence leaves ooseq sorted. -/
theorem tcpReceiveInseq_sorted (hw0 : 0 < s.pcb.rcvWnd) (hq : OosSorted s.pcb.rcvNxt 1 s.pcb.ooseq)
    (hc : c.Queued) (hl : c.len ≤ 65507) (hr : c.tcphdr.seqno = s.pcb.rcvNxt)
    (h : tcpReceiveInseq s c = .ok s') : OosSorted s'.pcb.rcvNxt 1 s'.pcb.ooseq ∧
      s'.pcb.rcvWnd ≤ s.pcb.rcvWnd ∧ (4 ≤ s.pcb.state.num → 4 ≤ s'.pcb.state.num) := by
  obtain ⟨c₁, h₁, h⟩ := Run.bind_eq_ok.mp h
  obtain ⟨⟨c', q'⟩, h₂, h⟩ := Run.bind_eq_ok.mp h
  obtain ⟨s₁, h₃, h⟩ := Run.bind_eq_ok.mp h
  obtain ⟨s₂, h₄, h⟩ := Run.bind_eq_ok.mp h
  dsimp only at h₃ h₄
  cases h
  have hct := c.tcplen_le
  have hc₁ : c₁.Queued ∧ c₁.tcphdr.seqno = s.pcb.rcvNxt ∧ c₁.len ≤ 65507 := by
    rcases trimWnd_spec (by omega) hw0 h₁ with ⟨rfl, -⟩ | ⟨m, hm, rfl, hle, -⟩
    · exact ⟨hc, hr, hl⟩
    · exact ⟨⟨⟨hc.toWf.clearFin_cut hm, hm.trans hc.len_le, by omega⟩, hc.syn⟩, hr, hm.trans hl⟩
  obtain ⟨k1, k2, k3, k4⟩ := mergeOoseq_sorted hq hc₁.1 hc₁.2.1 h₂
  have hct' := c'.tcplen_le
  rw [u16_of_lt (by omega)] at h₃
  have t := tcpReceiveTake_took (by exact k2) h₃
  have hn := t.rcvNxt
  have hw := t.rcvWnd
  simp only [seqLen_cons, seqLen_nil, Nat.add_zero] at hn hw
  have hst : s₁.pcb.state = s.pcb.state := congrArg RcvView.state (tcpReceiveTake_ok h₃).2.2
  have hoo : s₁.pcb.ooseq = q' := congrArg RcvView.ooseq (tcpReceiveTake_ok h₃).2.2
  have hq₁ : OosSorted s₁.pcb.rcvNxt 0 q' := by
    rw [hn]
    exact (k4.advance (t := c'.tcplen) le_rfl).mono (by omega)
  obtain ⟨g1, g2, g3⟩ := tcpReceiveDequeue_sorted hoo hq₁ h₄
  have hv := rcvView_tcpAck s₂
  have e1 : (tcpAck s₂).pcb.rcvNxt = s₂.pcb.rcvNxt := congrArg RcvView.rcvNxt hv
  have e2 : (tcpAck s₂).pcb.rcvWnd = s₂.pcb.rcvWnd := congrArg RcvView.rcvWnd hv
  have e3 : (tcpAck s₂).pcb.ooseq = s₂.pcb.ooseq := congrArg RcvView.ooseq hv
  have e4 : (tcpAck s₂).pcb.state = s₂.pcb.state := congrArg RcvView.state hv
  rw [e1, e2, e3, e4]
  exact ⟨g1, by omega, fun hnum => g3 (by rwa [hst])⟩

/-! ## The invariant -/

/-- What holds of ooseq at all times: before the connection is established nothing is on it. -/
structure OosInv (v : Core) : Prop where
  rcvWnd_le : v.rcvWnd ≤ TCP_WND
  sorted : OosSorted v.rcvNxt 1 v.ooseq
  early : v.state.num < TcpState.ESTABLISHED.num → v.ooseq = []

/-- The segment carries no SYN. -/
def NoSyn (_ : Core) (seg : InSegment) : Prop := seg.flags.syn = false

theorem OosInv.of_rcvView (hv : s'.rcvView = s.rcvView) (h : OosInv s.core) : OosInv s'.core where
  rcvWnd_le := (congrArg (RcvView.rcvWnd · ≤ TCP_WND) hv).mpr h.rcvWnd_le
  sorted := by
    have h' : OosSorted s.rcvView.rcvNxt 1 s.rcvView.ooseq := h.sorted
    rw [← hv] at h'
    exact h'
  early := by
    have h' : s.rcvView.state.num < TcpState.ESTABLISHED.num → s.rcvView.ooseq = [] := h.early
    rw [← hv] at h'
    exact h'

theorem OosInv.tcpReceiveData (hI : OosInv s.core) (hsyn : NoSyn s.core seg)
    (hest : TcpState.ESTABLISHED.num ≤ s.pcb.state.num)
    (h : Rudp.tcpReceiveData s seg = .ok s') : OosInv s'.core := by
  have hwl : s.pcb.rcvWnd ≤ TCP_WND := hI.rcvWnd_le
  have hT : TCP_WND = 5360 := rfl
  have hq : OosSorted s.pcb.rcvNxt 1 s.pcb.ooseq := hI.sorted
  rcases tcpReceiveData_cases h with hv | ⟨hl, hst, c, s₁, hc, hv, hin, hd⟩
  · exact hI.of_rcvView hv
  obtain ⟨hcq, hcl⟩ := tcpReceiveFirstEdge_queued hl hsyn hc
  obtain ⟨i1, i2⟩ := inWindow_ahead (by omega) hin
  rcases hd with ⟨hc0, hd⟩ | ⟨hc0, q', hq', hv'⟩
  · have e1 : s₁.pcb.rcvNxt = s.pcb.rcvNxt := congrArg RcvView.rcvNxt hv
    have e2 : s₁.pcb.rcvWnd = s.pcb.rcvWnd := congrArg RcvView.rcvWnd hv
    have e3 : s₁.pcb.ooseq = s.pcb.ooseq := congrArg RcvView.ooseq hv
    have e4 : s₁.pcb.state = s.pcb.state := congrArg RcvView.state hv
    have hw0 : 0 < s.pcb.rcvWnd := by
      rw [hc0, dist_self] at i2
      omega
    obtain ⟨g1, g2, g3⟩ := tcpReceiveInseq_sorted (by rwa [e2]) (by rwa [e1, e3]) hcq hcl
      (by rwa [e1]) hd
    rw [e2] at g2
    rw [e4] at g3
    refine ⟨g2.trans hwl, g1, fun hlt => ?_⟩
    have hge := g3 hest
    exact absurd hlt (not_lt.mpr hge)
  · have hpos : c.pos s.pcb.rcvNxt ≠ 0 := fun h => hc0 (dist_eq_zero h)
    have h0 : 0 < c.pos s.pcb.rcvNxt := lt_of_le_of_ne i1 (Ne.symm hpos)
    have hs := oosInsert_sorted (by omega) hq hcq hcl h0 i2 hq'
    have e1 : s'.pcb.rcvNxt = s.pcb.rcvNxt := congrArg RcvView.rcvNxt hv'
    have e2 : s'.pcb.rcvWnd = s.pcb.rcvWnd := congrArg RcvView.rcvWnd hv'
    have e3 : s'.pcb.ooseq = q' := congrArg RcvView.ooseq hv'
    have e4 : s'.pcb.state = s.pcb.state := congrArg RcvView.state hv'
    refine ⟨?_, ?_, fun hlt => ?_⟩
    · show s'.pcb.rcvWnd ≤ TCP_WND
      rwa [e2]
    · show OosSorted s'.pcb.rcvNxt 1 s'.pcb.ooseq
      rwa [e1, e3]
    · change s'.pcb.state.num < _ at hlt
      rw [e4] at hlt
      omega

theorem OosInv.tcpReceive (hI : OosInv s.core) (hsyn : NoSyn s.core seg)
    (h : Rudp.tcpReceive s seg = .ok s') : OosInv s'.core := by
  obtain ⟨hnum, s₁, -, hv, h⟩ := tcpReceive_parts h
  have e4 : s₁.pcb.state = s.pcb.state := congrArg RcvView.state hv
  exact (hI.of_rcvView hv).tcpReceiveData hsyn (by rw [e4]; exact hnum) h

theorem OosInv.congr {v v' : Core} (h : OosInv v) (hw : v'.rcvWnd ≤ TCP_WND)
    (hn : v'.rcvNxt = v.rcvNxt) (hq : v'.ooseq = v.ooseq)
    (hs : v'.state.num < TcpState.ESTABLISHED.num → v.state.num < TcpState.ESTABLISHED.num) :
    OosInv v' where
  rcvWnd_le := hw
  sorted := by rw [hn, hq]; exact h.sorted
  early hlt := by rw [hq]; exact h.early (hs hlt)

/-- Nothing waits on ooseq. -/
theorem OosInv.of_nil {v : Core} (hw : v.rcvWnd ≤ TCP_WND) (hq : v.ooseq = []) : OosInv v where
  rcvWnd_le := hw
  sorted := by rw [hq]; trivial
  early _ := hq

theorem OosInv.purge (h : OosInv s.core) : OosInv { s with pcb := tcpPcbPurge s.pcb }.core := by
  unfold tcpPcbPurge
  split
  · exact .of_nil h.rcvWnd_le rfl
  · exact h

theorem OosInv.after {state : TcpState} (h : OosInv s.core) :
    OosInv (tcpProcessAfter state seg s).core := by
  have hset {t : St W} {st : TcpState} (ht : OosInv t.core) (hst : 4 ≤ st.num) :
      OosInv { t with pcb.state := st }.core :=
    ht.congr ht.rcvWnd_le rfl rfl (fun hlt => absurd hlt (not_lt.mpr hst))
  have htw {t : St W} (ht : OosInv t.core) : OosInv (toTimeWait t).core :=
    hset (t := { t with pcb := tcpPcbPurge t.pcb }) ht.purge (by decide)
  have hack : OosInv (tcpAckNow s).core := h
  unfold tcpProcessAfter
  dsimp only
  split <;> try split_ifs
  all_goals first
  | exact h
  | exact hset hack (by decide)
  | exact hset h (by decide)
  | exact htw hack

theorem OosInv.process {after : St W → St W} (hI : OosInv s.core) (hsyn : NoSyn s.core seg)
    (hafter : ∀ t : St W, OosInv t.core → OosInv (after t).core)
    (h : tcpProcessReceive s seg after = .ok s') : OosInv s'.core := by
  obtain ⟨s₁, h₁, h⟩ := Run.bind_eq_ok.mp h
  cases h
  have h₂ := hafter s₁ (hI.tcpReceive hsyn h₁)
  exact h₂.congr h₂.rcvWnd_le rfl rfl id

/-- The new window of `tcp_recved` is none that exceeds `TCP_WND`. -/
theorem rcvWndRecved_le {pcb : Pcb} {len : Fin 65536} {w : ℕ} (h : rcvWndRecved pcb len = .ok w) :
    w ≤ TCP_WND := by
  unfold rcvWndRecved at h
  dsimp only at h
  split_ifs at h <;> cases h
  · exact le_rfl
  · exact le_rfl
  · omega

theorem preserved_oosInv : Preserved (fun _ _ => True) NoSyn fun s : St W => OosInv s.core where
  frame hI he _ := he ▸ hI
  callback _ hI := hI.congr hI.rcvWnd_le rfl rfl id
  connect {s s' _ _ _} _ hr hI := by
    obtain ⟨h1, h2, h3⟩ := tcpConnectSyn_ok hr
    have hq : s.pcb.ooseq = [] := hI.early (by show s.pcb.state.num < _; rw [h1]; decide)
    refine .of_nil ?_ (h2.trans hq)
    show s'.pcb.rcvWnd ≤ TCP_WND
    rcases h3 with ⟨h3, -⟩ | h3
    · rw [h3]
      exact hI.rcvWnd_le
    · exact h3.le
  write _ hr hI := by
    have h₁ := hI.of_rcvView (rcvView_tcpWrite hr)
    split
    · exact h₁.congr h₁.rcvWnd_le rfl rfl id
    · exact h₁
  recved _ hw hI := hI.congr (rcvWndRecved_le hw) rfl rfl id
  fin {s s' _ st _} _ _ hst hr hI := by
    have h₁ := hI.of_rcvView (rcvView_tcpSendFin hr)
    split
    · refine h₁.congr h₁.rcvWnd_le rfl rfl (fun hlt => absurd hlt (not_lt.mpr ?_))
      show 4 ≤ st.num
      unfold closeState at hst
      split at hst <;> cases hst <;> decide
    · exact h₁
  output hr hI := hI.of_rcvView (rcvView_tcpOutput hr)
  rexmitRto hr hI := hI.of_rcvView (rcvView_tcpRexmitRto hr)
  probe {s} hI := hI.of_rcvView (rcvView_tcpZeroWindowProbe s)
  rexmit {s} _ hI := hI.of_rcvView (rcvView_tcpRexmit s)
  rcvWndFin {s} hI := by
    have hle := hI.rcvWnd_le
    change s.pcb.rcvWnd ≤ TCP_WND at hle
    have hT : TCP_WND = 5360 := rfl
    refine hI.congr ?_ ?_ ?_ ?_ <;> unfold Rudp.rcvWndFin <;> split
    · next hne =>
      show u16 (s.pcb.rcvWnd + 1) ≤ TCP_WND
      rw [u16_of_lt (by omega)]
      omega
    · exact hle
    · rfl
    · rfl
    · rfl
    · rfl
    · exact id
    · exact id
  mss _ _ hI := hI.congr hI.rcvWnd_le rfl rfl id
  establish {s _ _ _} hs _ _ _ hI :=
    .of_nil hI.rcvWnd_le (hI.early (by show s.pcb.state.num < _; rw [hs]; decide))
  accept _ _ hI := hI.congr hI.rcvWnd_le rfl rfl (fun hlt => absurd hlt (not_lt.mpr (le_refl 4)))
  receive _ hQ hr hI := hI.process hQ (fun _ h => h.after) hr
  receiveAccept _ _ _ _ _ hQ hr hI₁ := by
    refine hI₁.process hQ (fun t ht => ?_) hr
    unfold tcpProcessAcceptAfter
    dsimp only
    split
    · exact ht.congr ht.rcvWnd_le rfl rfl (fun hlt => absurd hlt (by simp [St.core, TcpState.num]))
    · exact ht.congr ht.rcvWnd_le rfl rfl id
  purge _ hI := hI.purge
  timeWait _ _ _ _ _ hq hI := .of_nil hI.rcvWnd_le hq
  closed _ _ _ hq hI := .of_nil hI.rcvWnd_le hq
  clear _ _ hI := .of_nil hI.rcvWnd_le rfl
  ooseq hI := .of_nil hI.rcvWnd_le rfl

end Receive

/-! ## The representation -/

section Represented

variable {r : U32} {lo : ℤ} {q : List TcpSeg} {s₀ s : St W}

/-- The representation invariant of ooseq, in the comparisons of the code. -/
structure OosWf (r : U32) (q : List TcpSeg) : Prop where
  sorted : q.Pairwise fun c d => tcpSeqLt c.tcphdr.seqno d.tcphdr.seqno
  apart : q.Pairwise fun c d => tcpSeqLeq (c.tcphdr.seqno + u32 c.len) d.tcphdr.seqno
  ahead : ∀ c ∈ q, tcpSeqGt c.tcphdr.seqno r
  fin_last : q.Pairwise fun c _ => c.tcphdr.flags.fin = false
  len_eq : ∀ c ∈ q, c.len = totLen c.p
  len_le : ∀ c ∈ q, c.len ≤ 65535
  occupies : ∀ c ∈ q, 0 < c.tcplen
  syn : ∀ c ∈ q, c.tcphdr.flags.syn = false

theorem OosSorted.pairwise (h : OosSorted r lo q) : q.Pairwise fun c d : TcpSeg =>
    c.pos r + 1 ≤ d.pos r ∧ c.pos r + c.len ≤ d.pos r ∧ c.tcphdr.flags.fin = false := by
  induction q generalizing lo with
  | nil => exact .nil
  | cons c q ih =>
    obtain ⟨h1, h2, h3, h4⟩ := h
    refine .cons (fun d hd => ?_) (ih h4)
    have hle := (h4.forall d hd).2
    refine ⟨by omega, by omega, ?_⟩
    by_contra hf
    rw [h3 (by simpa using hf)] at hd
    cases hd

theorem OosWf.tail {c : TcpSeg} (h : OosWf r (c :: q)) : OosWf r q where
  sorted := h.sorted.of_cons
  apart := h.apart.of_cons
  ahead d hd := h.ahead d (List.mem_cons_of_mem _ hd)
  fin_last := h.fin_last.of_cons
  len_eq d hd := h.len_eq d (List.mem_cons_of_mem _ hd)
  len_le d hd := h.len_le d (List.mem_cons_of_mem _ hd)
  occupies d hd := h.occupies d (List.mem_cons_of_mem _ hd)
  syn d hd := h.syn d (List.mem_cons_of_mem _ hd)

theorem OosWf.oosSorted (h : OosWf r q) (hlo : ∀ c ∈ q, lo ≤ c.pos r) : OosSorted r lo q := by
  induction q generalizing lo with
  | nil => trivial
  | cons c q ih =>
    have hc0 : 0 < c.pos r := h.ahead c List.mem_cons_self
    have hl := h.len_le c List.mem_cons_self
    refine ⟨hlo c List.mem_cons_self, ⟨⟨h.len_eq c List.mem_cons_self, hl,
      h.occupies c List.mem_cons_self⟩, h.syn c List.mem_cons_self⟩, fun hf => ?_,
      ih h.tail fun d hd => ?_⟩
    · cases q with
      | nil => rfl
      | cons d q =>
        have hn := List.rel_of_pairwise_cons h.fin_last List.mem_cons_self
        rw [hn] at hf
        cases hf
    · have hd0 : 0 < d.pos r := h.ahead d (List.mem_cons_of_mem _ hd)
      have hlt := (seqno_lt_iff hc0.le hd0.le).mp (List.rel_of_pairwise_cons h.sorted hd)
      have hle : dist c.dataEnd d.tcphdr.seqno ≤ 0 := List.rel_of_pairwise_cons h.apart hd
      rw [dist_dataEnd_seqno hc0.le hd0.le (by omega)] at hle
      omega

/-- What is sorted is so in the comparisons of the code. -/
theorem oosSorted_iff : OosSorted r 1 q ↔ OosWf r q := by
  constructor
  · intro h
    have hp : ∀ c ∈ q, 0 < c.pos r := fun c hc => by
      have hle := (h.forall c hc).2
      omega
    refine ⟨?_, ?_, fun c hc => hp c hc, h.pairwise.imp fun h => h.2.2,
      fun c hc => (h.forall c hc).1.len_eq, fun c hc => (h.forall c hc).1.len_le,
      fun c hc => (h.forall c hc).1.tcplen_pos, fun c hc => (h.forall c hc).1.syn⟩
    · refine h.pairwise.imp_of_mem fun hc hd hcd => ?_
      exact (seqno_lt_iff (hp _ hc).le (hp _ hd).le).mpr (by omega)
    · refine h.pairwise.imp_of_mem fun {c d} hc hd hcd => ?_
      show dist c.dataEnd d.tcphdr.seqno ≤ 0
      rw [dist_dataEnd_seqno (hp c hc).le (hp d hd).le (by omega)]
      omega
  · intro h
    exact h.oosSorted fun c hc => h.ahead c hc

/-- In every run in which no segment with SYN reaches `tcp_receive`, ooseq is a queue of the
    code. -/
theorem ooseq_represented (happ : AppOk (fun _ _ => True) app) (h₀ : Fresh s₀)
    (hr : Run.Reach (connStep app) (Preserved.StepOk (fun _ _ => True) NoSyn app) s₀ s) :
    OosWf s.pcb.rcvNxt s.pcb.ooseq := by
  have hp : Kept _ _ _ app (fun s : St W => OosInv s.core) := preserved_oosInv.toKept
  have hfresh : OosInv s₀.core := by
    refine hp.fresh (fun s hs => ?_) (fun {s s' err} seg localPort serverId hs hr => ?_) h₀
    · obtain ⟨⟨prio, iss, ticks, port, hpcb⟩, -⟩ := hs
      exact .of_nil (by show s.pcb.rcvWnd ≤ _; rw [hpcb]; exact le_rfl)
        (by show s.pcb.ooseq = _; rw [hpcb]; rfl)
    · obtain ⟨⟨prio, iss, ticks, port, hpcb⟩, -⟩ := hs
      refine OosInv.of_rcvView (rcvView_tcpEnqueueFlags hr) (.of_nil ?_ ?_)
      · show s.pcb.rcvWnd ≤ _
        rw [hpcb]
        exact le_rfl
      · show s.pcb.ooseq = _
        rw [hpcb]
        rfl
  have hI : OosInv s.core := preserved_oosInv.reach happ hfresh hr
  exact oosSorted_iff.mp hI.sorted

end Represented

/-! ### A run -/

/-- The last byte of the server and its FIN. -/
def finOp (seqno : U32) (wnd : ℕ) : List Bool × Op :=
  ([], .input { tcphdr := serverHdr seqno 1000 { ack := true, fin := true } wnd
                p := [{ payload := [7] }], bound := oneByte_bound })

/-- Two bytes and the FIN arrive early. -/
theorem ooseq_represented_early : ∃ s, Run.exec (connStep idleApp) client
    [connectOp, synAckOp TCP_WND, byteOp 5 TCP_WND, finOp 8 TCP_WND, byteOp 3 TCP_WND] = .ok s ∧
      s.pcb.ooseq.map (fun seg => (seg.tcphdr.seqno, seg.tcphdr.flags.fin)) =
        [(3, false), (5, false), (8, true)] ∧
      OosWf s.pcb.rcvNxt s.pcb.ooseq := by
  refine ⟨_, rfl, rfl, ooseq_represented appOk_idleApp fresh_client (.step (byteOp 3 TCP_WND)
    (.step (finOp 8 TCP_WND) (.step (byteOp 5 TCP_WND) (.step (synAckOp TCP_WND)
      (.step connectOp .refl trivial rfl) (fun t ht => ?_) rfl)
        (fun _ _ => rfl) rfl) (fun _ _ => rfl) rfl) (fun _ _ => rfl) rfl)⟩
  -- in SYN_SENT `tcp_receive` is not called
  obtain ⟨s₁, h₁, -, s₂, rfl, ht⟩ := ht
  cases h₁
  rcases ht with ⟨h, -⟩ | ⟨h, -⟩
  · exact absurd h (by decide)
  · cases h

end Rudp

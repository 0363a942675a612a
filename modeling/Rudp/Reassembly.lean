import Rudp.Lib.Run
import Rudp.SeqNo
import Rudp.TcpIn

/-!
# The reassembly queue

`OosChain Q r lo q` says that ooseq `q` is sorted as seen from `r` (`rcv_nxt`): the segments do not
overlap in their data, only the last one may carry FIN, and each satisfies `Q`, a predicate on its
position (its distance from `r`) and itself. `Q` is what a particular result needs of the segments:
that they carry the right slice of a stream, or that they end in the window.

Results:
* `oosInsert_cases`: where the walk over ooseq puts an arriving segment.
* `oosInsert_chain`: the queue stays a chain.
* `mergeOoseq_spec`: the in-sequence segment and the queue after they are adjusted to each other.
-/

namespace Rudp

open Serial

/-- The position of a segment as seen from `r`. -/
def TcpSeg.pos (r : U32) (c : TcpSeg) : ℤ := dist c.tcphdr.seqno r

/-- `len` is the length of the chain, and the segment occupies sequence numbers. -/
structure TcpSeg.Wf (c : TcpSeg) : Prop where
  len_eq : c.len = totLen c.p
  len_le : c.len ≤ 65535
  tcplen_pos : 0 < c.tcplen

theorem TcpSeg.tcplen_eq (c : TcpSeg) :
    c.tcplen = c.len + if c.tcphdr.flags.fin || c.tcphdr.flags.syn then 1 else 0 := rfl

theorem TcpSeg.len_le_tcplen (c : TcpSeg) : c.len ≤ c.tcplen := Nat.le_add_right _ _

theorem TcpSeg.tcplen_le (c : TcpSeg) : c.tcplen ≤ c.len + 1 := by
  rw [tcplen_eq]
  split_ifs <;> omega

/-! ## Cutting -/

@[simp] theorem cut_hdr (c : TcpSeg) (m : ℕ) : (c.cut m).tcphdr = c.tcphdr := rfl

@[simp] theorem cut_len (c : TcpSeg) (m : ℕ) : (c.cut m).len = m := rfl

@[simp] theorem cut_pos (c : TcpSeg) (m : ℕ) (r : U32) : (c.cut m).pos r = c.pos r := rfl

@[simp] theorem setFin_pos (c : TcpSeg) (r : U32) : c.setFin.pos r = c.pos r := rfl

@[simp] theorem setFin_len (c : TcpSeg) : c.setFin.len = c.len := rfl

@[simp] theorem setFin_fin (c : TcpSeg) : c.setFin.tcphdr.flags.fin = true := rfl

@[simp] theorem clearFin_pos (c : TcpSeg) (r : U32) : c.clearFin.pos r = c.pos r := rfl

theorem TcpSeg.Wf.cut {c : TcpSeg} (h : c.Wf) {m : ℕ} (h0 : 0 < m) (hm : m ≤ c.len) :
    (c.cut m).Wf where
  len_eq := by
    show m = totLen (pbufRealloc c.p m)
    rw [totLen_pbufRealloc, ← h.len_eq, min_eq_left hm]
  len_le := hm.trans h.len_le
  tcplen_pos := lt_of_lt_of_le h0 (len_le_tcplen (c.cut m))

theorem TcpSeg.Wf.setFin {c : TcpSeg} (h : c.Wf) : c.setFin.Wf where
  len_eq := h.len_eq
  len_le := h.len_le
  tcplen_pos := by
    rw [tcplen_eq]
    simp

/-! ## The chain -/

/-- A segment on ooseq that satisfies `Q` at its position. -/
structure OosEntry (Q : ℤ → TcpSeg → Prop) (r : U32) (c : TcpSeg) : Prop where
  pos_le : c.pos r ≤ 65535
  wf : c.Wf
  holds : Q (c.pos r) c

/-- The queue is sorted, and its first segment is not before `lo`. -/
def OosChain (Q : ℤ → TcpSeg → Prop) (r : U32) : ℤ → List TcpSeg → Prop
  | _, [] => True
  | lo, c :: q =>
    lo ≤ c.pos r ∧ OosEntry Q r c ∧ (c.tcphdr.flags.fin = true → q = []) ∧
      OosChain Q r (max (c.pos r + 1) (c.pos r + c.len)) q

section Chain

variable {Q : ℤ → TcpSeg → Prop} {r : U32} {lo lo' : ℤ} {c : TcpSeg} {q pre rest : List TcpSeg}

theorem OosChain.mono (hlo : lo' ≤ lo) (h : OosChain Q r lo q) : OosChain Q r lo' q := by
  cases q with
  | nil => trivial
  | cons c q => exact ⟨hlo.trans h.1, h.2⟩

theorem OosChain.forall (h : OosChain Q r lo q) : ∀ c ∈ q, OosEntry Q r c ∧ lo ≤ c.pos r := by
  induction q generalizing lo with
  | nil => simp
  | cons c q ih =>
    obtain ⟨h1, h2, -, h4⟩ := h
    intro d hd
    rcases List.mem_cons.mp hd with rfl | hd
    · exact ⟨h2, h1⟩
    · obtain ⟨he, hl⟩ := ih h4 d hd
      exact ⟨he, by omega⟩

/-- Only the last segment carries FIN. -/
theorem OosChain.fin_last (h : OosChain Q r lo (pre ++ c :: rest)) :
    ∀ d ∈ pre, d.tcphdr.flags.fin = false := by
  induction pre generalizing lo with
  | nil => simp
  | cons d pre ih =>
    obtain ⟨-, -, h3, h4⟩ := h
    intro e he
    rcases List.mem_cons.mp he with rfl | he
    · by_contra hf
      simp at hf
      exact absurd (h3 hf) (by simp)
    · exact ih h4 e he

theorem OosChain.drop (h : OosChain Q r lo (pre ++ rest)) : OosChain Q r lo rest := by
  induction pre generalizing lo with
  | nil => exact h
  | cons d pre ih =>
    obtain ⟨h1, -, -, h4⟩ := h
    exact ih (h4.mono (by omega))

/-- Behind a segment at `p` the chain starts at `p + 1`. -/
theorem OosChain.tail (h : OosChain Q r lo (c :: rest)) : OosChain Q r (c.pos r + 1) rest :=
  h.2.2.2.mono (le_max_left _ _)

/-- The chain seen from a reference point further on. -/
theorem OosChain.advance {P : ℤ → TcpSeg → Prop} {t : ℕ} (ht : t ≤ 65535)
    (hQ : ∀ p c, Q p c → P (p - t) c) (hlo : -65536 ≤ lo) (h : OosChain Q r lo q) :
    OosChain P (r + u32 t) (lo - t) q := by
  induction q generalizing lo with
  | nil => trivial
  | cons c q ih =>
    obtain ⟨h1, ⟨h2, hw, hq⟩, h3, h4⟩ := h
    have hd : c.pos (r + u32 t) = c.pos r - t := by
      unfold TcpSeg.pos at *
      have hr : dist (r + u32 t) r = t := by
        rw [dist_add_u32 _ _ _ (by simp; omega), dist_self, zero_add]
      rw [← hr]
      exact Near.dist (r := r) (by constructor <;> omega) (by constructor <;> omega)
    refine ⟨by omega, ⟨by omega, hw, hd ▸ hQ _ _ hq⟩, h3, ?_⟩
    have := ih (by omega) h4
    rw [hd]
    exact this.mono (by omega)

end Chain

/-! ## Sequence numbers of segments on the queue -/

section Near

variable {r : U32} {c : TcpSeg}

theorem near_pos (h0 : -65536 ≤ c.pos r) (h1 : c.pos r ≤ 65535) : Near r c.tcphdr.seqno := by
  unfold TcpSeg.pos at *
  constructor <;> omega

theorem dist_dataEnd (h1 : c.pos r ≤ 65535) (hl : c.len ≤ 65535) :
    dist c.dataEnd r = c.pos r + c.len := by
  unfold TcpSeg.pos at *
  exact dist_add_u32 _ _ _ (by omega)

theorem near_dataEnd (h0 : -65536 ≤ c.pos r) (h1 : c.pos r ≤ 65535) (hl : c.len ≤ 65535) :
    Near r c.dataEnd := by
  have := dist_dataEnd h1 hl
  constructor <;> omega

end Near

/-! ## Insertion -/

/-- `Q` survives cutting a segment without FIN at its end. -/
def CutClosed (Q : ℤ → TcpSeg → Prop) : Prop :=
  ∀ p c m, Q p c → c.tcphdr.flags.fin = false → 0 < m → m ≤ c.len → Q p (c.cut m)

section Insert

variable {Q : ℤ → TcpSeg → Prop} {r : U32} {lo : ℤ} {c d : TcpSeg} {q rest : List TcpSeg}

theorem dataEnd_geq_iff (hc0 : -65536 ≤ c.pos r) (hc1 : c.pos r ≤ 65535) (hcl : c.len ≤ 65535)
    (hd0 : -65536 ≤ d.pos r) (hd : OosEntry Q r d) :
    tcpSeqGeq c.dataEnd d.dataEnd ↔ d.pos r + d.len ≤ c.pos r + c.len := by
  rw [tcpSeqGeq_iff (near_dataEnd hc0 hc1 hcl) (near_dataEnd hd0 hd.pos_le hd.wf.len_le),
    dist_dataEnd hc1 hcl, dist_dataEnd hd.pos_le hd.wf.len_le]

theorem dataEnd_gt_iff (hc0 : -65536 ≤ c.pos r) (hc1 : c.pos r ≤ 65535) (hcl : c.len ≤ 65535)
    (hd0 : -65536 ≤ d.pos r) (hd1 : d.pos r ≤ 65535) :
    tcpSeqGt c.dataEnd d.tcphdr.seqno ↔ d.pos r < c.pos r + c.len := by
  rw [tcpSeqGt_iff (near_dataEnd hc0 hc1 hcl) (near_pos hd0 hd1), dist_dataEnd hc1 hcl]
  rfl

/-- The distance between two segments as the code computes a length from it. -/
theorem u16_seqno_sub (hc0 : -65536 ≤ c.pos r) (hcd : c.pos r ≤ d.pos r) (hd1 : d.pos r ≤ 65535)
    (h : d.pos r - c.pos r ≤ 65535) :
    (u16 (d.tcphdr.seqno - c.tcphdr.seqno).toNat : ℤ) = d.pos r - c.pos r := by
  have hn := (near_pos (r := r) (c := d) (by omega) hd1).dist (near_pos hc0 (by omega))
  have hs : dist d.tcphdr.seqno c.tcphdr.seqno = d.pos r - c.pos r := hn
  have ht := u32_toNat_sub d.tcphdr.seqno c.tcphdr.seqno (by omega)
  rw [u16_of_lt (by omega), ht, hs]

/-- What the loop of `tcp_oos_insert_segment` removes, and whether it copies a FIN. -/
theorem oosCovered_spec (hq : OosChain Q r lo q) (hlo : -1 ≤ lo) (hc0 : -65536 ≤ c.pos r)
    (hc1 : c.pos r ≤ 65535) (hcl : c.len ≤ 65535) :
    ∃ gone, q = gone ++ (oosCovered c q).2 ∧
      (∀ d ∈ gone, d.pos r + d.len ≤ c.pos r + c.len) ∧
      (∀ d ∈ (oosCovered c q).2.head?, c.pos r + c.len < d.pos r + d.len) ∧
      ((oosCovered c q).1 = c ∨
        ((oosCovered c q).1 = c.setFin ∧ (oosCovered c q).2 = [] ∧
          ∃ d ∈ gone, d.tcphdr.flags.fin = true)) := by
  induction q generalizing lo c with
  | nil => exact ⟨[], rfl, by simp, by simp [oosCovered], .inl rfl⟩
  | cons d q ih =>
    obtain ⟨h1, h2, h3, h4⟩ := hq
    have hiff := dataEnd_geq_iff hc0 hc1 hcl (by omega) h2
    rw [oosCovered]
    split_ifs with hcov hf
    · -- the covered segment carries FIN and is the last one
      obtain rfl := h3 hf
      exact ⟨[d], rfl, by simpa using hiff.mp hcov, by simp [oosCovered],
        .inr ⟨rfl, rfl, d, by simp, hf⟩⟩
    · obtain ⟨gone, e1, e2, e3, e4⟩ := ih h4 (by omega) hc0 hc1 hcl
      refine ⟨d :: gone, by rw [List.cons_append, ← e1], ?_, e3, ?_⟩
      · intro x hx
        rcases List.mem_cons.mp hx with rfl | hx
        · exact hiff.mp hcov
        · exact e2 x hx
      · rcases e4 with e4 | ⟨e4, e5, x, hx, hxf⟩
        · exact .inl e4
        · exact .inr ⟨e4, e5, x, List.mem_cons_of_mem _ hx, hxf⟩
    · exact ⟨[], rfl, by simp, by simpa using not_le.mp (mt hiff.mpr hcov), .inl rfl⟩

/-- The queue from the inserted segment on is a chain. -/
theorem tcpOosInsertSegment_chain (hcut : CutClosed Q) (hq : OosChain Q r (c.pos r) q)
    (hhead : ∀ d ∈ q.head?, d.pos r = c.pos r → d.len < c.len) (hc0 : -1 ≤ c.pos r)
    (hc1 : c.pos r ≤ 65535) (hw : c.Wf) (hQ : Q (c.pos r) c)
    (hQfin : c.tcphdr.flags.fin = false →
      (∃ d ∈ q, d.tcphdr.flags.fin = true ∧ d.pos r + d.len ≤ c.pos r + c.len) →
      Q (c.pos r) c.setFin) :
    OosChain Q r (c.pos r) (tcpOosInsertSegment c q) := by
  unfold tcpOosInsertSegment
  split_ifs with hf
  · exact ⟨le_rfl, ⟨hc1, hw, hQ⟩, fun _ => rfl, trivial⟩
  have hf' : c.tcphdr.flags.fin = false := by simpa using hf
  obtain ⟨gone, e1, e2, e3, e4⟩ := oosCovered_spec hq hc0 (by omega) hc1 hw.len_le
  rcases e : oosCovered c q with ⟨c', q'⟩
  rw [e] at e1 e3 e4
  dsimp only at e1 e3 e4
  subst e1
  rcases e4 with rfl | ⟨rfl, rfl, x, hx, hxf⟩
  · cases q' with
    | nil => exact ⟨le_rfl, ⟨hc1, hw, hQ⟩, fun _ => rfl, trivial⟩
    | cons d q' =>
      have hdr : OosChain Q r (c'.pos r) (d :: q') := hq.drop
      have hpd : c'.pos r < d.pos r := by
        have hne : d.pos r ≠ c'.pos r := by
          intro heq
          cases gone with
          | nil =>
            have h1 := hhead d (by simp) heq
            have h2 := e3 d (by simp)
            omega
          | cons g gone =>
            have h1 : OosChain Q r (g.pos r + 1) (gone ++ d :: q') := hq.tail
            have h2 := h1.drop.1
            have h3 := hq.1
            omega
        have := hdr.1
        omega
      have hd1 := hdr.2.1.pos_le
      have hiff := dataEnd_gt_iff (c := c') (d := d) (r := r) (by omega) hc1 hw.len_le (by omega) hd1
      dsimp only
      split_ifs with hgt
      · have hm := u16_seqno_sub (c := c') (d := d) (r := r) (by omega) hpd.le hd1
          (by have := hw.len_le; have := hiff.mp hgt; omega)
        have hgt' := hiff.mp hgt
        set m := u16 (d.tcphdr.seqno - c'.tcphdr.seqno).toNat with hmdef
        refine ⟨le_rfl, ⟨hc1, hw.cut (by omega) (by omega), hcut _ _ _ hQ hf' (by omega) (by omega)⟩,
          by simp [hf'], ?_⟩
        refine ⟨?_, hdr.2⟩
        simp only [cut_pos, cut_len]
        omega
      · have hle := not_lt.mp (mt hiff.mpr hgt)
        exact ⟨le_rfl, ⟨hc1, hw, hQ⟩, by simp [hf'], by omega, hdr.2⟩
  · exact ⟨le_rfl, ⟨hc1, hw.setFin, hQfin hf' ⟨x, by simp [hx], hxf, e2 x hx⟩⟩,
      fun _ => rfl,
      trivial⟩

/-! ### The segment in front of the insertion -/

theorem modifyLast_cons_cons {α : Type} (f : α → α) (x y : α) (l : List α) :
    modifyLast f (x :: y :: l) = x :: modifyLast f (y :: l) := rfl

/-- The trimming of the segment in front of `c` leaves a segment that ends before it. -/
theorem oosTrimPrev_spec (hcut : CutClosed Q) {prev : TcpSeg} (hp0 : -1 ≤ prev.pos r)
    (hp : OosEntry Q r prev) (hlt : prev.pos r < c.pos r) (hc1 : c.pos r ≤ 65535)
    (hf : prev.tcphdr.flags.fin = false) :
    OosEntry Q r (oosTrimPrev prev c.tcphdr.seqno) ∧
      (oosTrimPrev prev c.tcphdr.seqno).tcphdr = prev.tcphdr ∧
      (oosTrimPrev prev c.tcphdr.seqno).pos r = prev.pos r ∧
      prev.pos r + (oosTrimPrev prev c.tcphdr.seqno).len ≤ c.pos r := by
  have hiff := dataEnd_gt_iff (c := prev) (d := c) (r := r) (by omega) hp.pos_le hp.wf.len_le
    (by omega) hc1
  unfold oosTrimPrev
  split_ifs with hgt
  · have hgt' := hiff.mp hgt
    have hl := hp.wf.len_le
    have hm := u16_seqno_sub (c := prev) (d := c) (r := r) (by omega) hlt.le hc1 (by omega)
    set m := u16 (c.tcphdr.seqno - prev.tcphdr.seqno).toNat
    refine ⟨⟨hp.pos_le, hp.wf.cut (by omega) (by omega),
      hcut _ _ _ hp.holds hf (by omega) (by omega)⟩, rfl, rfl, ?_⟩
    rw [cut_len]
    omega
  · have := not_lt.mp (mt hiff.mpr hgt)
    exact ⟨hp, rfl, rfl, by omega⟩

/-- Replacing the end of a chain, with the segment in front of it trimmed. -/
theorem OosChain.splice (hcut : CutClosed Q) {pre new : List TcpSeg} (hlo : -1 ≤ lo)
    (hq : OosChain Q r lo (pre ++ rest)) (hlt : ∀ d ∈ pre, d.pos r < c.pos r)
    (hf : ∀ d ∈ pre, d.tcphdr.flags.fin = false) (hloc : lo ≤ c.pos r) (hc1 : c.pos r ≤ 65535)
    (hnew : OosChain Q r (c.pos r) new) :
    OosChain Q r lo (modifyLast (oosTrimPrev · c.tcphdr.seqno) pre ++ new) := by
  induction pre generalizing lo with
  | nil => exact hnew.mono hloc
  | cons d pre ih =>
    obtain ⟨h1, h2, h3, h4⟩ := hq
    have hd := hlt d List.mem_cons_self
    have hdf := hf d List.mem_cons_self
    cases pre with
    | nil =>
      obtain ⟨g1, g2, g3, g4⟩ := oosTrimPrev_spec hcut (by omega) h2 hd hc1 hdf
      refine ⟨by dsimp only; omega, g1, by simp [g2, hdf], hnew.mono (max_le ?_ ?_)⟩
      · dsimp only; omega
      · dsimp only; omega
    | cons e pre =>
      rw [modifyLast_cons_cons]
      refine ⟨h1, h2, by simp [hdf], ih (by omega) h4 (fun x hx => hlt x (List.mem_cons_of_mem _ hx))
        (fun x hx => hf x (List.mem_cons_of_mem _ hx)) ?_⟩
      have := h4.1
      have := hlt e (by simp)
      omega

/-! ### Where the segment goes -/

/-- The segment went in front of `rest`. -/
def InsertedAt (r : U32) (c : TcpSeg) (pre rest : List TcpSeg) : Prop :=
  (∀ d ∈ pre, d.pos r < c.pos r) ∧ (∀ d ∈ pre, d.tcphdr.flags.fin = false) ∧
    (∀ d ∈ rest, c.pos r ≤ d.pos r) ∧ ∀ d ∈ rest.head?, d.pos r = c.pos r → d.len < c.len

theorem oosTrimPrev_of_le {prev : TcpSeg} (hp0 : -1 ≤ prev.pos r) (hp : OosEntry Q r prev)
    (hle : prev.pos r + prev.len ≤ c.pos r) (hc1 : c.pos r ≤ 65535) :
    oosTrimPrev prev c.tcphdr.seqno = prev := by
  have hiff := dataEnd_gt_iff (c := prev) (d := c) (r := r) (by omega) hp.pos_le hp.wf.len_le
    (by omega) hc1
  unfold oosTrimPrev
  rw [if_neg (mt hiff.mp (by omega))]

/-- The window edge that `oosAppend` trims a segment to. -/
def windowCut (rcvNxt : U32) (rcvWnd : ℕ) (inseg : TcpSeg) : TcpSeg :=
  inseg.clearFin.cut (u16 (rcvNxt + u32 rcvWnd - inseg.tcphdr.seqno).toNat)

/-- Behind the last segment of ooseq: the segment goes there, trimmed to the window. -/
def AppendedTo (r : U32) (w : ℕ) (c : TcpSeg) (q q' : List TcpSeg) : Prop :=
  (∀ d ∈ q, d.pos r < c.pos r) ∧ (∀ d ∈ q, d.tcphdr.flags.fin = false) ∧
    ((¬ tcpSeqGt (u32 (u16 c.tcplen) + c.tcphdr.seqno) (r + u32 w) ∧
        q' = modifyLast (oosTrimPrev · c.tcphdr.seqno) q ++ [c]) ∨
      (tcpSeqGt (u32 (u16 c.tcplen) + c.tcphdr.seqno) (r + u32 w) ∧
        c.tcphdr.seqno + u32 (u16 (windowCut r w c).tcplen) = r + u32 w ∧
        q' = modifyLast (oosTrimPrev · c.tcphdr.seqno) q ++ [windowCut r w c]))

theorem oosAppend_cases {w : ℕ} {q' : List TcpSeg}
    (h : oosAppend r w c d = some (.ok q')) (hd : d.pos r < c.pos r) :
    AppendedTo r w c [d] q' := by
  simp only [oosAppend] at h
  split_ifs at h with hf hgt
  · obtain ⟨_, ha, h⟩ := Run.bind_eq_ok.mp (Option.some.inj h)
    unfold lwipAssert at ha
    split_ifs at ha with hseq
    cases h
    exact ⟨by simpa using hd, by simpa using hf, .inr ⟨hgt, hseq, rfl⟩⟩
  · cases h
    exact ⟨by simpa using hd, by simpa using hf, .inl ⟨hgt, rfl⟩⟩

theorem near_of_pos (h0 : -65536 ≤ d.pos r) (h1 : d.pos r ≤ 65535) :
    Near r (d.tcphdr.seqno + 1) ∧ dist (d.tcphdr.seqno + 1) r = d.pos r + 1 ∧
      Near r (d.tcphdr.seqno - 1) ∧ dist (d.tcphdr.seqno - 1) r = d.pos r - 1 := by
  unfold TcpSeg.pos at *
  have ha := dist_add_one d.tcphdr.seqno r (by omega)
  have hs := dist_sub_one d.tcphdr.seqno r (by omega)
  exact ⟨⟨by omega, by omega⟩, ha, ⟨by omega, by omega⟩, hs⟩

/-- The walk behind its first turn: the segment is inserted in front of some `rest`, or goes behind
    the last segment. -/
theorem oosWalk_cases {w : ℕ} {prev : TcpSeg} {q' : List TcpSeg} (hlo : -1 ≤ lo)
    (hq : OosChain Q r lo (prev :: q)) (hc1 : c.pos r ≤ 65535) (hlt : prev.pos r < c.pos r)
    (h : oosWalk r w c prev q = some (.ok q')) :
    (∃ pre rest, q = pre ++ rest ∧ rest ≠ [] ∧ InsertedAt r c (prev :: pre) rest ∧
      q' = modifyLast (oosTrimPrev · c.tcphdr.seqno) (prev :: pre) ++
        tcpOosInsertSegment c rest) ∨
    AppendedTo r w c (prev :: q) q' := by
  induction q generalizing lo prev q' with
  | nil => cases h
  | cons next q ih =>
    obtain ⟨h1, h2, h3, h4⟩ := hq
    have hn := h4.2.1
    have hn0 : prev.pos r + 1 ≤ next.pos r := (le_max_left _ _).trans h4.1
    have hn0' : prev.pos r + prev.len ≤ next.pos r := (le_max_right _ _).trans h4.1
    have hpf : prev.tcphdr.flags.fin = false := by
      by_contra hf
      exact absurd (h3 (by simpa using hf)) (by simp)
    have hnc := near_pos (r := r) (c := c) (by omega) hc1
    have hnn := near_pos (r := r) (c := next) (by omega) hn.pos_le
    obtain ⟨hp1, hp2, -, -⟩ := near_of_pos (r := r) (d := prev) (by omega) h2.pos_le
    obtain ⟨-, -, hn1, hn2⟩ := near_of_pos (r := r) (d := next) (by omega) hn.pos_le
    have heq : c.tcphdr.seqno = next.tcphdr.seqno ↔ c.pos r = next.pos r := eq_iff_dist hnc hnn
    have hbet := tcpSeqBetween_iff hnc hp1 hn1
    rw [hp2, hn2] at hbet
    have hgt : tcpSeqGt c.tcphdr.seqno next.tcphdr.seqno ↔ next.pos r < c.pos r :=
      tcpSeqGt_iff hnc hnn
    have hcp : dist c.tcphdr.seqno r = c.pos r := rfl
    have hrest : ∀ d ∈ next :: q, next.pos r ≤ d.pos r := by
      intro d hd
      rcases List.mem_cons.mp hd with rfl | hd
      · exact le_rfl
      · have := (h4.tail.forall d hd).2
        omega
    simp only [oosWalk] at h
    split_ifs at h with c1 c2 c3 c4
    · -- same sequence number, the old segment holds less
      have hp := heq.mp c1
      have e : oosTrimPrev prev c.tcphdr.seqno = prev :=
        oosTrimPrev_of_le (by omega) h2 (by omega) hc1
      cases h
      refine .inl ⟨[], next :: q, rfl, by simp, ⟨by simpa using hlt, by simpa using hpf,
        fun d hd => ?_, by simpa using fun _ => c2⟩, ?_⟩
      · have := hrest d hd
        omega
      · simp [modifyLast, e]
    · -- between `prev` and `next`
      obtain ⟨-, hb⟩ := hbet.mp c3
      cases h
      refine .inl ⟨[], next :: q, rfl, by simp, ⟨by simpa using hlt, by simpa using hpf,
        fun d hd => ?_, ?_⟩, rfl⟩
      · have := hrest d hd
        omega
      · intro d hd hdp
        simp only [List.head?_cons, Option.mem_def, Option.some.injEq] at hd
        subst hd
        omega
    · -- behind the last segment
      obtain ⟨rfl, c4⟩ := c4
      cases ha : oosAppend r w c next with
      | none => rw [ha] at h; cases h
      | some x =>
        rw [ha] at h
        obtain ⟨y, rfl, rfl⟩ := Run.map_eq_ok.mp (Option.some.inj h)
        obtain ⟨a1, a2, a3⟩ := oosAppend_cases ha (hgt.mp c4)
        refine .inr ⟨?_, ?_, ?_⟩
        · simpa using ⟨hlt, a1 next (by simp)⟩
        · simpa using ⟨hpf, a2 next (by simp)⟩
        · rcases a3 with ⟨b1, rfl⟩ | ⟨b1, b2, rfl⟩
          · exact .inl ⟨b1, rfl⟩
          · exact .inr ⟨b1, b2, rfl⟩
    · -- the walk goes on behind `next`
      have hltn : next.pos r < c.pos r := by
        have hne : c.pos r ≠ next.pos r := mt heq.mpr c1
        have := mt hbet.mpr c3
        omega
      cases hw : oosWalk r w c next q with
      | none => rw [hw] at h; cases h
      | some x =>
        rw [hw] at h
        obtain ⟨y, rfl, rfl⟩ := Run.map_eq_ok.mp (Option.some.inj h)
        rcases ih (by omega) h4 hltn hw with ⟨pre, rest, rfl, hne, ⟨i1, i2, i3, i4⟩, rfl⟩ |
          ⟨a1, a2, a3⟩
        · exact .inl ⟨next :: pre, rest, rfl, hne, ⟨List.forall_mem_cons.mpr ⟨hlt, i1⟩,
            List.forall_mem_cons.mpr ⟨hpf, i2⟩, i3, i4⟩, rfl⟩
        · refine .inr ⟨List.forall_mem_cons.mpr ⟨hlt, a1⟩, List.forall_mem_cons.mpr ⟨hpf, a2⟩, ?_⟩
          rcases a3 with ⟨b1, rfl⟩ | ⟨b1, b2, rfl⟩
          · exact .inl ⟨b1, rfl⟩
          · exact .inr ⟨b1, b2, rfl⟩

/-- Where the walk over ooseq puts an arriving segment. -/
theorem oosInsert_cases {w : ℕ} {q' : List TcpSeg} (hlo : -1 ≤ lo) (hq : OosChain Q r lo q)
    (hc0 : 0 ≤ c.pos r) (hc1 : c.pos r ≤ 65535) (h : oosInsert r w c q = some (.ok q')) :
    (∃ pre rest, q = pre ++ rest ∧ (rest = [] → q = []) ∧ InsertedAt r c pre rest ∧
      q' = modifyLast (oosTrimPrev · c.tcphdr.seqno) pre ++ tcpOosInsertSegment c rest) ∨
    (q ≠ [] ∧ AppendedTo r w c q q') := by
  cases q with
  | nil =>
    cases h
    refine .inl ⟨[], [], rfl, fun _ => rfl, ⟨by simp, by simp, by simp, by simp⟩, ?_⟩
    simp only [modifyLast, tcpOosInsertSegment, oosCovered, List.nil_append]
    split_ifs <;> rfl
  | cons next q =>
    have hn := hq.2.1
    have hn0 := hq.1
    have hnc := near_pos (r := r) (c := c) (by omega) hc1
    have hnn := near_pos (r := r) (c := next) (by omega) hn.pos_le
    have heq : c.tcphdr.seqno = next.tcphdr.seqno ↔ c.pos r = next.pos r := eq_iff_dist hnc hnn
    have hlt : tcpSeqLt c.tcphdr.seqno next.tcphdr.seqno ↔ c.pos r < next.pos r :=
      tcpSeqLt_iff hnc hnn
    have hgt : tcpSeqGt c.tcphdr.seqno next.tcphdr.seqno ↔ next.pos r < c.pos r :=
      tcpSeqGt_iff hnc hnn
    have hrest : ∀ d ∈ next :: q, next.pos r ≤ d.pos r := by
      intro d hd
      rcases List.mem_cons.mp hd with rfl | hd
      · exact le_rfl
      · have := (hq.tail.forall d hd).2
        omega
    simp only [oosInsert] at h
    split_ifs at h with c1 c2 c3 c4
    · have hp := heq.mp c1
      cases h
      refine .inl ⟨[], next :: q, rfl, by simp, ⟨by simp, by simp, fun d hd => ?_,
        by simpa using fun _ => c2⟩, rfl⟩
      have := hrest d hd
      omega
    · have hp := hlt.mp c3
      cases h
      refine .inl ⟨[], next :: q, rfl, by simp, ⟨by simp, by simp, fun d hd => ?_, ?_⟩, rfl⟩
      · have := hrest d hd
        omega
      · intro d hd hdp
        simp only [List.head?_cons, Option.mem_def, Option.some.injEq] at hd
        subst hd
        omega
    · obtain ⟨rfl, c4⟩ := c4
      exact .inr ⟨by simp, oosAppend_cases h (hgt.mp c4)⟩
    · have hltn : next.pos r < c.pos r := by
        have := mt heq.mpr c1
        have := mt hlt.mpr c3
        omega
      rcases oosWalk_cases hlo hq hc1 hltn h with ⟨pre, rest, rfl, hne, hi, rfl⟩ | ha
      · exact .inl ⟨next :: pre, rest, rfl, fun h => absurd h hne, hi, rfl⟩
      · exact .inr ⟨by simp, ha⟩

theorem windowCut_wf {w : ℕ} (hc : c.Wf) (hc0 : 0 ≤ c.pos r) (hcw : c.pos r < w) (hw : w ≤ 65535)
    (hgt : tcpSeqGt (u32 (u16 c.tcplen) + c.tcphdr.seqno) (r + u32 w)) :
    (windowCut r w c).Wf ∧ ((windowCut r w c).len : ℤ) = w - c.pos r ∧
      (windowCut r w c).len ≤ c.len := by
  have hl := hc.len_le
  have htl := c.tcplen_le
  have hr : dist (r + u32 w) r = w := by
    rw [dist_add_u32 _ _ _ (by simp; omega), dist_self, zero_add]
  have hnr : Near r (r + u32 w) := by constructor <;> omega
  have hs : dist c.tcphdr.seqno r = c.pos r := rfl
  have hnc := near_pos (r := r) (c := c) (by omega) (by omega)
  have hd := hnr.dist hnc
  have hlen : ((windowCut r w c).len : ℤ) = w - c.pos r := by
    show ((u16 (r + u32 w - c.tcphdr.seqno).toNat : ℕ) : ℤ) = _
    have ht := u32_toNat_sub (r + u32 w) c.tcphdr.seqno (by omega)
    rw [u16_of_lt (by omega)]
    omega
  have hend : dist (u32 (u16 c.tcplen) + c.tcphdr.seqno) r = c.pos r + u16 c.tcplen := by
    have := Nat.mod_lt c.tcplen (by decide : 0 < 65536)
    rw [BitVec.add_comm]
    exact dist_add_u32 _ _ _ (by unfold u16; omega)
  have hu : u16 c.tcplen ≤ c.tcplen := Nat.mod_le _ _
  have hgt' := (tcpSeqGt_iff (r := r) (by constructor <;> omega) hnr).mp hgt
  have hle : (windowCut r w c).len ≤ c.len := by omega
  have h0 : 0 < (windowCut r w c).len := by omega
  refine ⟨⟨?_, hle.trans hl, lt_of_lt_of_le h0 (TcpSeg.len_le_tcplen _)⟩, hlen, hle⟩
  show (windowCut r w c).len = totLen (pbufRealloc c.p (windowCut r w c).len)
  rw [totLen_pbufRealloc, ← hc.len_eq, min_eq_left hle]

/-- ooseq stays a chain when a segment is inserted. What the segment must satisfy depends on where
    it goes: as it is, with the FIN of a segment it covers, or cut at the window. -/
theorem oosInsert_chain {w : ℕ} {q' : List TcpSeg} (hcut : CutClosed Q) (hlo : -1 ≤ lo)
    (hq : OosChain Q r lo q) (hc : c.Wf) (hloc : lo ≤ c.pos r) (hc0 : 0 ≤ c.pos r)
    (hcw : c.pos r < w) (hw : w ≤ 65535)
    (hins : ∀ pre rest, q = pre ++ rest → (rest = [] → q = []) → InsertedAt r c pre rest →
      Q (c.pos r) c ∧ (c.tcphdr.flags.fin = false →
        (∃ d ∈ rest, d.tcphdr.flags.fin = true ∧ d.pos r + d.len ≤ c.pos r + c.len) →
        Q (c.pos r) c.setFin))
    (happ : ¬ tcpSeqGt (u32 (u16 c.tcplen) + c.tcphdr.seqno) (r + u32 w) → Q (c.pos r) c)
    (hwin : c.tcphdr.seqno + u32 (u16 (windowCut r w c).tcplen) = r + u32 w →
      (windowCut r w c).len ≤ c.len → Q (c.pos r) (windowCut r w c))
    (h : oosInsert r w c q = some (.ok q')) : OosChain Q r lo q' := by
  have hc1 : c.pos r ≤ 65535 := by omega
  rcases oosInsert_cases hlo hq hc0 hc1 h with ⟨pre, rest, rfl, hne, hi, rfl⟩ |
    ⟨hne, a1, a2, ⟨b1, rfl⟩ | ⟨b1, b2, rfl⟩⟩
  · obtain ⟨hQ, hQfin⟩ := hins pre rest rfl hne hi
    obtain ⟨i1, i2, i3, i4⟩ := hi
    refine hq.splice hcut hlo i1 i2 hloc hc1 ?_
    have hrest : OosChain Q r (c.pos r) rest := by
      cases rest with
      | nil => trivial
      | cons d rest => exact ⟨i3 d (by simp), hq.drop.2⟩
    exact tcpOosInsertSegment_chain hcut hrest i4 (by omega) hc1 hc hQ hQfin
  · have hq' : OosChain Q r lo (q ++ []) := by rwa [List.append_nil]
    exact hq'.splice hcut hlo a1 a2 hloc hc1 ⟨le_rfl, ⟨hc1, hc, happ b1⟩, fun _ => rfl, trivial⟩
  · have hq' : OosChain Q r lo (q ++ []) := by rwa [List.append_nil]
    obtain ⟨w1, w2, w3⟩ := windowCut_wf hc hc0 hcw hw b1
    exact hq'.splice hcut hlo a1 a2 hloc hc1
      ⟨le_rfl, ⟨hc1, w1, hwin b2 w3⟩, fun _ => rfl, trivial⟩

end Insert

/-! ## The segment that is next in sequence -/

section Merge

variable {Q : ℤ → TcpSeg → Prop} {r : U32} {lo : ℤ} {c d : TcpSeg} {q : List TcpSeg}

/-- The segments that the in-sequence segment covers are removed, and a FIN is copied. -/
theorem mergeCovered_spec (hq : OosChain Q r lo q) (hlo : -1 ≤ lo) (hc0 : c.pos r = 0)
    (hcl : c.len ≤ 65535) (hf : c.tcphdr.flags.fin = false) (hs : c.tcphdr.flags.syn = false) :
    ∃ gone, q = gone ++ (mergeCovered c q).2 ∧
      (∀ d ∈ gone, d.pos r + d.len ≤ c.len) ∧
      (∀ d ∈ (mergeCovered c q).2.head?, c.len < d.pos r + d.len) ∧
      ((mergeCovered c q).1 = c ∨
        ((mergeCovered c q).1 = c.setFin ∧ (mergeCovered c q).2 = [] ∧
          ∃ d ∈ gone, d.tcphdr.flags.fin = true)) := by
  induction q generalizing lo with
  | nil => exact ⟨[], rfl, by simp, by simp [mergeCovered], .inl rfl⟩
  | cons d q ih =>
    obtain ⟨h1, h2, h3, h4⟩ := hq
    have htl : u16 c.tcplen = c.len := by
      rw [TcpSeg.tcplen_eq]
      simp only [hf, hs]
      exact u16_of_lt (by simp; omega)
    have hiff : tcpSeqGeq (c.tcphdr.seqno + u32 (u16 c.tcplen)) d.dataEnd ↔
        d.pos r + d.len ≤ c.len := by
      have := dataEnd_geq_iff (c := c) (by omega) (by omega) hcl (by omega) h2
      rw [htl]
      rwa [hc0, zero_add] at this
    rw [mergeCovered]
    simp only [hs, Bool.not_false, Bool.and_true]
    split_ifs with hcov hdf
    · obtain rfl := h3 hdf
      exact ⟨[d], rfl, by simpa using hiff.mp hcov, by simp [mergeCovered],
        .inr ⟨rfl, rfl, d, by simp, hdf⟩⟩
    · obtain ⟨gone, e1, e2, e3, e4⟩ := ih h4 (by omega)
      refine ⟨d :: gone, by rw [List.cons_append, ← e1], ?_, e3, ?_⟩
      · exact List.forall_mem_cons.mpr ⟨hiff.mp hcov, e2⟩
      · rcases e4 with e4 | ⟨e4, e5, x, hx, hxf⟩
        · exact .inl e4
        · exact .inr ⟨e4, e5, x, List.mem_cons_of_mem _ hx, hxf⟩
    · exact ⟨[], rfl, by simp, by simpa using not_le.mp (mt hiff.mpr hcov), .inl rfl⟩

/-- What becomes of the in-sequence segment `c`: it is left alone, gets the FIN of a segment it
    covers, or is cut in front of the first segment on ooseq. -/
inductive Merged (r : U32) (c : TcpSeg) (q : List TcpSeg) : TcpSeg → List TcpSeg → Prop
  | same {q'} : Merged r c q c q'
  | fin (d : TcpSeg) : d ∈ q → d.tcphdr.flags.fin = true → d.pos r + d.len ≤ c.len →
      c.tcphdr.flags.fin = false → c.tcphdr.flags.syn = false → Merged r c q c.setFin []
  | cut (m : ℕ) {q'} : m ≤ c.len → c.tcphdr.flags.fin = false → c.tcphdr.flags.syn = false →
      Merged r c q (c.cut m) q'

/-- The in-sequence segment and ooseq after they are adjusted to each other: what stays on ooseq
    lies behind the segment. A segment with SYN only arrives while ooseq is empty. -/
theorem mergeOoseq_spec {c' : TcpSeg} {q' : List TcpSeg} (hq : OosChain Q r lo q) (hlo : -1 ≤ lo)
    (hc0 : c.pos r = 0) (hcl : c.tcplen ≤ 65535) (hsyn : c.tcphdr.flags.syn = true → q = [])
    (h : mergeOoseq c q = .ok (c', q')) :
    OosChain Q r c'.tcplen q' ∧ Merged r c q c' q' ∧ ∃ gone, q = gone ++ q' := by
  unfold mergeOoseq at h
  have hl := c.len_le_tcplen
  by_cases hf : c.tcphdr.flags.fin = true
  · rw [if_pos hf] at h
    cases h
    exact ⟨trivial, .same, q, by simp⟩
  rw [if_neg hf] at h
  have hf' : c.tcphdr.flags.fin = false := by simpa using hf
  by_cases hs : c.tcphdr.flags.syn = true
  · obtain rfl := hsyn hs
    cases h
    exact ⟨trivial, .same, [], rfl⟩
  have hs' : c.tcphdr.flags.syn = false := by simpa using hs
  have htl : c.tcplen = c.len := by
    rw [TcpSeg.tcplen_eq, hf', hs']
    rfl
  obtain ⟨gone, e1, e2, e3, e4⟩ := mergeCovered_spec hq hlo hc0 (by omega) hf' hs'
  rcases e : mergeCovered c q with ⟨c₁, q₁⟩
  rw [e] at h e1 e3 e4
  dsimp only at h e1 e3 e4
  cases q₁ with
  | nil =>
    cases h
    rcases e4 with rfl | ⟨rfl, -, x, hx, hxf⟩
    · exact ⟨trivial, .same, gone, e1⟩
    · exact ⟨trivial, .fin x (by rw [e1]; simp [hx]) hxf (e2 x hx) hf' hs', gone, e1⟩
  | cons d q₁ =>
    obtain rfl : c₁ = c := by
      rcases e4 with e4 | ⟨-, e5, -⟩
      · exact e4
      · cases e5
    obtain ⟨c₂, hm, h⟩ := Run.bind_eq_ok.mp h
    cases h
    have hdr : OosChain Q r lo (d :: q₁) := by
      rw [e1] at hq
      exact hq.drop
    have hd0 := hdr.1
    have hd1 := hdr.2.1.pos_le
    unfold mergeTrim at hm
    rw [u16_of_lt (by omega), htl] at hm
    have hiff : tcpSeqGt (c₁.tcphdr.seqno + u32 c₁.len) d.tcphdr.seqno ↔ d.pos r < c₁.len := by
      have := dataEnd_gt_iff (c := c₁) (d := d) (r := r) (by omega) (by omega) (by omega)
        (by omega) hd1
      rwa [hc0, zero_add] at this
    by_cases hgt : tcpSeqGt (c₁.tcphdr.seqno + u32 c₁.len) d.tcphdr.seqno
    · rw [if_pos hgt] at hm
      have hgt' := hiff.mp hgt
      obtain ⟨_, ha, hm⟩ := Run.bind_eq_ok.mp hm
      cases hm
      unfold lwipAssert at ha
      split_ifs at ha with hseq
      simp only [trimLen, hs', Bool.false_eq_true, if_false] at hseq ⊢
      set m := u16 (d.tcphdr.seqno - c₁.tcphdr.seqno).toNat with hmdef
      have hm16 : m < 65536 := Nat.mod_lt _ (by decide)
      have hmt : (c₁.cut m).tcplen = m := by
        rw [TcpSeg.tcplen_eq]
        simp [hf', hs']
      -- the assertion excludes a segment that starts behind rcv_nxt
      have hdm : d.pos r = m := by
        rw [cut_hdr, hmt, u16_of_lt hm16] at hseq
        unfold TcpSeg.pos at hc0 ⊢
        rw [← hseq, dist_add_u32 _ _ _ (by omega), hc0, zero_add]
      refine ⟨?_, .cut m (by omega) hf' hs', gone, e1⟩
      rw [hmt]
      exact ⟨by omega, hdr.2⟩
    · rw [if_neg hgt] at hm
      cases hm
      have := mt hiff.mpr hgt
      refine ⟨?_, .same, gone, e1⟩
      rw [htl]
      exact ⟨by omega, hdr.2⟩

end Merge

end Rudp

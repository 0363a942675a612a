import Rudp.Ooseq

/-!
# What ooseq holds

A segment holds its bytes, each at the position of its sequence number as seen from `rcv_nxt`, and its
FIN at the position behind them. When the segments carry parts of one stream, the positions determine
what is held.

Results:
* `covered_tcpOosInsertSegment`, `covered_modifyLast`: the positions behind an insertion.
* `ooseq_merges`: when ooseq holds, behind an arriving segment, what it held before and what of the
  segment lies in the window.
-/

namespace Rudp

open Serial

variable {W : Type} {s s' : St W} {seg : InSegment}
variable {r : U32} {w : ℕ} {lo x : ℤ} {c d : TcpSeg} {q q' pre rest : List TcpSeg}

/-- What a segment holds: its bytes and its FIN, by position. -/
def TcpSeg.items (r : U32) (c : TcpSeg) : Set (ℤ × Option Byte) :=
  { x | (∃ i b, (bytes c.p)[i]? = some b ∧ x = (c.pos r + (i : ℕ), some b)) ∨
    (c.tcphdr.flags.fin = true ∧ x = (c.pos r + c.len, none)) }

/-- What the queue holds. -/
def held (r : U32) (q : List TcpSeg) : Set (ℤ × Option Byte) := { x | ∃ c ∈ q, x ∈ c.items r }

/-- The segment occupies the position `x`. -/
def TcpSeg.Covers (r : U32) (c : TcpSeg) (x : ℤ) : Prop := c.pos r ≤ x ∧ x < c.pos r + c.tcplen

/-- A segment of the queue occupies the position `x`. -/
def Covered (r : U32) (q : List TcpSeg) (x : ℤ) : Prop := ∃ c ∈ q, c.Covers r x

/-- The segment is a part of the stream with byte `f x` at position `x` and FIN, if any, at `F`. -/
structure OfStream (f : ℤ → Byte) (F : Option ℤ) (r : U32) (c : TcpSeg) : Prop where
  data : ∀ i b, (bytes c.p)[i]? = some b → b = f (c.pos r + (i : ℕ))
  fin : c.tcphdr.flags.fin = true → F = some (c.pos r + c.len)
  ends : ∀ e, F = some e → c.pos r + c.len ≤ e

/-! ## Items and positions -/

section Items

variable {f : ℤ → Byte} {F : Option ℤ}

/-- What a stream has at a position. -/
def streamItem (f : ℤ → Byte) (F : Option ℤ) (x : ℤ) : ℤ × Option Byte :=
  (x, if F = some x then none else some (f x))

theorem TcpSeg.tcplen_of_fin (hf : c.tcphdr.flags.fin = true) :
    c.tcplen = c.len + 1 := by
  rw [TcpSeg.tcplen_eq, hf, Bool.true_or, if_pos rfl]

theorem covers_of_item {y : ℤ × Option Byte} (hc : c.Queued) (hy : y ∈ c.items r) :
    c.Covers r y.1 := by
  have hl := c.len_le_tcplen
  rcases hy with ⟨i, b, hb, rfl⟩ | ⟨hf, rfl⟩
  · have hi := (List.getElem?_eq_some_iff.mp hb).1
    rw [length_bytes, ← hc.len_eq] at hi
    refine ⟨?_, ?_⟩ <;> dsimp only <;> omega
  · have ht := c.tcplen_of_fin hf
    refine ⟨?_, ?_⟩ <;> dsimp only <;> omega

/-- The items of a part of a stream are those of the stream at its positions. -/
theorem OfStream.mem_items {y : ℤ × Option Byte} (h : OfStream f F r c) (hc : c.Queued) :
    y ∈ c.items r ↔ c.Covers r y.1 ∧ y = streamItem f F y.1 := by
  constructor
  · intro hy
    refine ⟨covers_of_item hc hy, ?_⟩
    rcases hy with ⟨i, b, hb, rfl⟩ | ⟨hf, rfl⟩
    · have hi := (List.getElem?_eq_some_iff.mp hb).1
      rw [length_bytes, ← hc.len_eq] at hi
      have hF : ¬ F = some (c.pos r + (i : ℕ)) := fun hF => by
        have he := h.ends _ hF
        omega
      unfold streamItem
      rw [if_neg hF, h.data i b hb]
    · unfold streamItem
      rw [if_pos (h.fin hf)]
  · rintro ⟨⟨h0, h1⟩, hy⟩
    obtain ⟨x, v⟩ := y
    dsimp only at h0 h1 hy
    by_cases hlt : x < c.pos r + c.len
    · have hF : ¬ F = some x := fun hF => by
        have he := h.ends _ hF
        omega
      obtain ⟨i, rfl⟩ : ∃ i : ℕ, x = c.pos r + i := ⟨(x - c.pos r).toNat, by omega⟩
      have hi : i < (bytes c.p).length := by
        rw [length_bytes, ← hc.len_eq]
        omega
      have hb := List.getElem?_eq_getElem hi
      refine .inl ⟨i, _, hb, ?_⟩
      rw [hy, h.data i _ hb]
      unfold streamItem
      rw [if_neg hF]
    · by_cases hf : c.tcphdr.flags.fin = true
      · have ht := c.tcplen_of_fin hf
        obtain rfl : x = c.pos r + c.len := by omega
        refine .inr ⟨hf, ?_⟩
        rw [hy]
        unfold streamItem
        rw [if_pos (h.fin hf)]
      · rw [hc.tcplen_eq_len hf] at h1
        omega

theorem mem_held {y : ℤ × Option Byte} (h : ∀ c ∈ q, OfStream f F r c) (hq : ∀ c ∈ q, c.Queued) :
    y ∈ held r q ↔ Covered r q y.1 ∧ y = streamItem f F y.1 := by
  constructor
  · rintro ⟨c, hc, hy⟩
    obtain ⟨h1, h2⟩ := ((h c hc).mem_items (hq c hc)).mp hy
    exact ⟨⟨c, hc, h1⟩, h2⟩
  · rintro ⟨⟨c, hc, h1⟩, h2⟩
    exact ⟨c, hc, ((h c hc).mem_items (hq c hc)).mpr ⟨h1, h2⟩⟩

/-- The union of two parts of a stream, by position. -/
theorem held_eq_union_iff (h : ∀ c ∈ q, OfStream f F r c) (hq : ∀ c ∈ q, c.Queued)
    (h' : ∀ c ∈ q', OfStream f F r c) (hq' : ∀ c ∈ q', c.Queued) (hc : OfStream f F r c)
    (hcq : c.Queued) : held r q' = held r q ∪ { y ∈ c.items r | y.1 < w } ↔
      ∀ x, Covered r q' x ↔ Covered r q x ∨ (c.Covers r x ∧ x < w) := by
  constructor
  · intro heq x
    have hm : streamItem f F x ∈ held r q' ↔ streamItem f F x ∈ held r q ∨
        (streamItem f F x ∈ c.items r ∧ (streamItem f F x).1 < w) := by
      rw [heq]
      rfl
    rw [mem_held h hq, mem_held h' hq', hc.mem_items hcq] at hm
    have he : (streamItem f F x).1 = x := rfl
    simp only [he, and_true] at hm
    exact hm
  · intro hx
    ext y
    have hy := hx y.1
    rw [Set.mem_union, Set.mem_sep_iff, mem_held h hq, mem_held h' hq', hc.mem_items hcq, hy]
    tauto

end Items

/-! ## The positions behind an insertion -/

section Positions

variable {f : ℤ → Byte} {F : Option ℤ}

/-- Of two segments of the queue, the first one ends before the second one. -/
theorem OosSorted.end_le (h : OosSorted r lo q) (hc : c ∈ q) (hd : d ∈ q)
    (hlt : c.pos r < d.pos r) : c.pos r + c.len ≤ d.pos r := by
  obtain ⟨a, b, rfl⟩ := List.append_of_mem hc
  rcases List.mem_append.mp hd with hd | hd
  · have ha := (h.apart d hd c List.mem_cons_self).1
    omega
  rcases List.mem_cons.mp hd with rfl | hd
  · omega
  have e : a ++ c :: b = (a ++ [c]) ++ b := by simp
  rw [e] at h
  exact (h.apart c (by simp) d hd).2

theorem covered_append : Covered r (pre ++ rest) x ↔ Covered r pre x ∨ Covered r rest x := by
  unfold Covered
  simp only [List.mem_append, or_and_right, exists_or]

theorem covered_cons : Covered r (c :: q) x ↔ c.Covers r x ∨ Covered r q x := by
  unfold Covered
  simp only [List.mem_cons, exists_eq_or_imp]

theorem not_covered_nil : ¬ Covered r [] x := by
  rintro ⟨c, hc, -⟩
  cases hc

theorem covers_of_not_fin (hc : c.Queued) (hf : c.tcphdr.flags.fin = false) :
    c.Covers r x ↔ c.pos r ≤ x ∧ x < c.pos r + c.len := by
  unfold TcpSeg.Covers
  rw [hc.tcplen_eq_len (by simp [hf])]

theorem covers_of_fin (hf : c.tcphdr.flags.fin = true) :
    c.Covers r x ↔ c.pos r ≤ x ∧ x ≤ c.pos r + c.len := by
  unfold TcpSeg.Covers
  rw [c.tcplen_of_fin hf]
  omega

/-- The first bytes of a part of a stream. -/
theorem OfStream.take {c' : TcpSeg} (h : OfStream f F r c) (hs : c'.tcphdr.seqno = c.tcphdr.seqno)
    (hf : c'.tcphdr.flags.fin = false) (hl : c'.len ≤ c.len)
    (hb : bytes c'.p = (bytes c.p).take c'.len) : OfStream f F r c' := by
  have hp : c'.pos r = c.pos r := by
    unfold TcpSeg.pos
    rw [hs]
  refine ⟨fun i b hi => ?_, fun hfin => ?_, fun e he => ?_⟩
  · rw [hb, List.getElem?_take] at hi
    split at hi
    · rw [hp]
      exact h.data i b hi
    · cases hi
  · rw [hf] at hfin
    cases hfin
  · have hle := h.ends e he
    rw [hp]
    omega

/-- The segments in front of an inserted one end before it. -/
theorem covered_modifyLast (hlo : 0 ≤ lo) (hq : OosSorted r lo pre)
    (hlt : ∀ d ∈ pre, d.pos r < c.pos r) (hf : ∀ d ∈ pre, d.tcphdr.flags.fin = false) :
    Covered r (modifyLast (oosTrimPrev · c.tcphdr.seqno) pre) x ↔
      Covered r pre x ∧ x < c.pos r := by
  induction pre generalizing lo with
  | nil => exact ⟨fun h => absurd h not_covered_nil, fun h => absurd h.1 not_covered_nil⟩
  | cons d pre ih =>
    obtain ⟨h1, h2, -, h4⟩ := hq
    have hd := hlt d List.mem_cons_self
    have hdf := hf d List.mem_cons_self
    have hcov := covers_of_not_fin (r := r) (x := x) h2 hdf
    cases pre with
    | nil =>
      obtain ⟨g1, g2, g3, -⟩ := oosTrimPrev_queued (by omega) hd h2
      have hp : (oosTrimPrev d c.tcphdr.seqno).pos r = d.pos r := by
        unfold TcpSeg.pos
        rw [g2]
      show Covered r [oosTrimPrev d c.tcphdr.seqno] x ↔ _
      rw [covered_cons, covered_cons, covers_of_not_fin g1 (by rw [g2, hdf]), hcov, hp, g3]
      simp only [not_covered_nil, or_false]
      omega
    | cons e pre =>
      rw [modifyLast_cons_cons, covered_cons, covered_cons, hcov,
        ih (by omega) h4 (fun a ha => hlt a (List.mem_cons_of_mem _ ha))
          (fun a ha => hf a (List.mem_cons_of_mem _ ha))]
      have he := hlt e (by simp)
      have hle := h4.1
      constructor
      · rintro (h | ⟨h, hx⟩)
        · exact ⟨.inl h, by omega⟩
        · exact ⟨.inr h, hx⟩
      · rintro ⟨h | h, hx⟩
        · exact .inl h
        · exact .inr ⟨h, hx⟩

theorem ofStream_modifyLast (hlo : 0 ≤ lo) (hq : OosSorted r lo pre)
    (hlt : ∀ d ∈ pre, d.pos r < c.pos r) (hf : ∀ d ∈ pre, d.tcphdr.flags.fin = false)
    (hs : ∀ d ∈ pre, OfStream f F r d) :
    ∀ d ∈ modifyLast (oosTrimPrev · c.tcphdr.seqno) pre, OfStream f F r d ∧ d.Queued := by
  induction pre generalizing lo with
  | nil =>
    intro d hd
    cases hd
  | cons d pre ih =>
    obtain ⟨h1, h2, -, h4⟩ := hq
    have hd := hlt d List.mem_cons_self
    have hdf := hf d List.mem_cons_self
    have hds := hs d List.mem_cons_self
    cases pre with
    | nil =>
      obtain ⟨g1, g2, g3, g4⟩ := oosTrimPrev_queued (by omega) hd h2
      intro e he
      obtain rfl := List.mem_singleton.mp he
      exact ⟨hds.take (by rw [g2]) (by rw [g2, hdf]) (by dsimp only; omega) g4, g1⟩
    | cons e pre =>
      rw [modifyLast_cons_cons]
      refine List.forall_mem_cons.mpr ⟨⟨hds, h2⟩, ih (by omega) h4
        (fun a ha => hlt a (List.mem_cons_of_mem _ ha))
        (fun a ha => hf a (List.mem_cons_of_mem _ ha))
        (fun a ha => hs a (List.mem_cons_of_mem _ ha))⟩

/-- No segment behind the inserted one is removed because its end is too far away to compare. -/
def NoWrap (r : U32) (c : TcpSeg) (q : List TcpSeg) : Prop :=
  ∀ d ∈ q, c.pos r ≤ d.pos r → c.pos r + c.len + 2147483648 < d.pos r + d.len →
    ∃ n ∈ q, c.pos r ≤ n.pos r ∧ n.pos r < d.pos r ∧ c.pos r + c.len < n.pos r + n.len

/-- What the loop of `tcp_oos_insert_segment` removes is covered. -/
theorem covered_of_noWrap {gone : List TcpSeg} (hq : OosSorted r (c.pos r) (gone ++ rest))
    (h0 : 0 < c.pos r) (hc : c.Queued) (hn : NoWrap r c (gone ++ rest))
    (hgone : ∀ d ∈ gone, tcpSeqGeq c.dataEnd d.dataEnd) :
    ∀ d ∈ gone, d.pos r + d.len ≤ c.pos r + c.len := by
  intro g hg
  have hiff {d : TcpSeg} (hd : d ∈ gone) := (dataEnd_geq_dataEnd (r := r) (c := c) (d := d) h0.le
    (hq.forall d (List.mem_append_left _ hd)).2 hc.len_le
    (hq.forall d (List.mem_append_left _ hd)).1.len_le).mp (hgone d hd)
  rcases hiff hg with h | h
  · exact h
  · exfalso
    obtain ⟨n, hn1, hn2, hn3, hn4⟩ := hn g (List.mem_append_left _ hg)
      (hq.forall g (List.mem_append_left _ hg)).2 (by omega)
    have hgu := g.pos_lt r
    have hng : n ∈ gone := by
      rcases List.mem_append.mp hn1 with hn1 | hn1
      · exact hn1
      · have ha := (hq.apart g hg n hn1).1
        omega
    rcases hiff hng with h' | h'
    · omega
    · have hle := hq.end_le (List.mem_append_left _ hng) (List.mem_append_left _ hg) hn3
      omega

/-- With FIN a part of the stream covers all that comes behind its start. -/
theorem OfStream.covers_of_fin (h : OfStream f F r c) (hd : OfStream f F r d)
    (hf : c.tcphdr.flags.fin = true) (hle : c.pos r ≤ x) (hx : d.Covers r x) : c.Covers r x := by
  have hF := h.fin hf
  have he := hd.ends _ hF
  rw [Rudp.covers_of_fin hf]
  have ht := d.tcplen_le
  obtain ⟨-, h1⟩ := hx
  omega

/-- The positions from an inserted segment on. -/
theorem covered_tcpOosInsertSegment (hq : OosSorted r (c.pos r) q)
    (hhead : ∀ d ∈ q.head?, d.pos r = c.pos r → d.len < c.len) (h0 : 0 < c.pos r)
    (hc : c.Queued) (hn : NoWrap r c q) (hs : OfStream f F r c) (hqs : ∀ d ∈ q, OfStream f F r d) :
    (∀ x, Covered r (tcpOosInsertSegment c q) x ↔ c.Covers r x ∨ Covered r q x) ∧
      ∀ d ∈ tcpOosInsertSegment c q, OfStream f F r d := by
  unfold tcpOosInsertSegment
  split
  · next hf =>
    refine ⟨fun x => ?_, by simpa using hs⟩
    rw [covered_cons]
    constructor
    · rintro (h | h)
      · exact .inl h
      · exact absurd h not_covered_nil
    · rintro (h | ⟨d, hd, h⟩)
      · exact .inl h
      · have hle := (hq.forall d hd).2
        have hx := h.1
        exact .inl (hs.covers_of_fin (hqs d hd) hf (by omega) h)
  next hf =>
  have hf' : c.tcphdr.flags.fin = false := by simpa using hf
  obtain ⟨gone, rest, rfl, e2, e3, ⟨e4, e5⟩ | ⟨rfl, e4, g, hg, hgf⟩⟩ := oosCovered_split (c := c) hq
  · have hgone := covered_of_noWrap hq h0 hc hn e2
    -- what is removed lies in the segment
    have hin (x : ℤ) : Covered r gone x → c.Covers r x := by
      rintro ⟨g, hg, hx⟩
      have hgq := hq.forall g (List.mem_append_left _ hg)
      have hle := hgone g hg
      obtain ⟨h1, h2⟩ := (covers_of_not_fin hgq.1 (e5 g hg)).mp hx
      exact (covers_of_not_fin hc hf').mpr ⟨by omega, by omega⟩
    have hcs : ∀ x, c.Covers r x ↔ c.pos r ≤ x ∧ x < c.pos r + c.len := fun x =>
      covers_of_not_fin hc hf'
    rw [e4]
    cases rest with
    | nil =>
      refine ⟨fun x => ?_, by simpa using hs⟩
      have hi := hin x
      have hnil : ¬ Covered r [] x := not_covered_nil
      rw [covered_cons, covered_append]
      tauto
    | cons d rest =>
      have hlt := pos_lt_uncovered hq hhead h0.le hc.len_le (e3 d (by simp))
      have hd := (hq.forall d (by simp)).1
      have hend := mt (dataEnd_geq_dataEnd h0.le hlt.le hc.len_le hd.len_le).mpr (e3 d (by simp))
      have hiff := dataEnd_gt_seqno (r := r) (c := c) (d := d) h0.le (by omega) hlt.le hc.len_le
      have hl := hc.len_le
      have hdt := d.len_le_tcplen
      dsimp only
      split
      · next hgt =>
        have hgt' := hiff.mp hgt
        have hm := u16_dist_seqno (r := r) (c := c) (d := d) h0.le hlt.le (by omega)
        generalize u16 (d.tcphdr.seqno - c.tcphdr.seqno).toNat = m at hm
        refine ⟨fun x => ?_, List.forall_mem_cons.mpr ⟨hs.take rfl hf'
          (by rw [cut_len]; omega) (bytes_pbufRealloc _ _), fun a ha => hqs a
            (List.mem_append_right _ ha)⟩⟩
        have hi := hin x
        have hcut : (c.cut m).Covers r x ↔ c.pos r ≤ x ∧ x < d.pos r := by
          rw [covers_of_not_fin (hc.cut (by omega) (by omega)) hf', cut_pos, cut_len, hm]
          omega
        have hdc : d.pos r ≤ x → x < c.pos r + c.len → d.Covers r x := fun h1 h2 =>
          ⟨h1, by omega⟩
        rw [covered_cons, covered_append, covered_cons, hcut, hcs x]
        rw [hcs x] at hi
        constructor
        · rintro (h | h)
          · exact .inl ⟨h.1, by omega⟩
          · exact .inr (.inr h)
        · have hx (h : c.pos r ≤ x ∧ x < c.pos r + c.len) :
              (c.pos r ≤ x ∧ x < d.pos r) ∨ d.Covers r x ∨ Covered r rest x := by
            by_cases hxd : x < d.pos r
            · exact .inl ⟨h.1, hxd⟩
            · exact .inr (.inl (hdc (by omega) h.2))
          rintro (h | h | h)
          · exact hx h
          · exact hx (hi h)
          · exact .inr h
      · refine ⟨fun x => ?_, List.forall_mem_cons.mpr ⟨hs, fun a ha => hqs a
          (List.mem_append_right _ ha)⟩⟩
        have hi := hin x
        rw [covered_cons, covered_append]
        tauto
  · -- the segment takes over the FIN of the last one
    have hgone := covered_of_noWrap hq h0 hc hn e2
    have hF := (hqs g (List.mem_append_left _ hg)).fin hgf
    have hle := hs.ends _ hF
    have hge := hgone g hg
    have hFe : F = some (c.pos r + c.len) := by
      rw [hF]
      congr 1
      omega
    rw [e4]
    refine ⟨fun x => ?_, ?_⟩
    · have hsf : c.setFin.Covers r x ↔ c.pos r ≤ x ∧ x ≤ c.pos r + c.len := covers_of_fin rfl
      rw [covered_cons, covered_append, hsf, covers_of_not_fin hc hf']
      constructor
      · rintro (h | h)
        · by_cases hx : x = c.pos r + c.len
          · refine .inr (.inl ⟨g, hg, (covers_of_fin hgf).mpr ⟨by omega, by omega⟩⟩)
          · exact .inl ⟨h.1, by omega⟩
        · exact absurd h not_covered_nil
      · rintro (h | ⟨d, hd, h1, h2⟩ | h)
        · exact .inl ⟨h.1, h.2.le⟩
        · have h3 := (hq.forall d (List.mem_append_left _ hd)).2
          have h4 := hgone d hd
          have h5 := d.tcplen_le
          exact .inl ⟨by omega, by omega⟩
        · exact absurd h not_covered_nil
    · intro d hd
      obtain rfl := List.mem_singleton.mp hd
      exact ⟨hs.data, fun _ => hFe, hs.ends⟩

end Positions

/-! ## When nothing is lost -/

section Merges

variable {f : ℤ → Byte} {F : Option ℤ}

/-- A segment at the same place holds no fewer bytes: the arriving one is discarded. -/
def Discarded (r : U32) (c : TcpSeg) (q : List TcpSeg) : Prop :=
  ∃ n ∈ q, n.pos r = c.pos r ∧ c.len ≤ n.len

/-- The segment does not go behind the last one. -/
def InFront (r : U32) (c : TcpSeg) (q : List TcpSeg) : Prop := q = [] ∨ ∃ n ∈ q, c.pos r ≤ n.pos r

/-- When ooseq takes up an arriving segment and loses nothing. -/
structure OosMerges (r : U32) (w : ℕ) (c : TcpSeg) (q : List TcpSeg) : Prop where
  /-- A segment that is discarded for one at the same place brings no new FIN. -/
  fin : Discarded r c q → c.tcphdr.flags.fin = true → c.pos r + c.len < w →
    ∃ d ∈ q, d.tcphdr.flags.fin = true
  /-- No segment in front of it reaches beyond its end, or beyond the window it is cut to. -/
  inner : ¬ Discarded r c q → ∀ d ∈ q, d.pos r < c.pos r → d.tcphdr.flags.fin = false →
    d.pos r + d.len ≤ c.pos r + c.tcplen ∧ (¬ InFront r c q → d.pos r + d.len ≤ w)
  /-- Where it is not cut to the window, it brings nothing new from beyond. -/
  overrun : ¬ Discarded r c q → InFront r c q → ∀ x, c.Covers r x → w ≤ x → Covered r q x
  /-- The comparison of two ends is one of numbers less than half the sequence space apart. -/
  wrap : ¬ Discarded r c q → NoWrap r c q

/-- A segment that is discarded for one at the same place. -/
theorem held_discarded_iff (hq : OosSorted r 1 q) (hs : ∀ d ∈ q, OfStream f F r d) (hc : c.Queued)
    (hcs : OfStream f F r c) (hd : Discarded r c q) :
    held r q = held r q ∪ { y ∈ c.items r | y.1 < w } ↔ OosMerges r w c q := by
  have hqq : ∀ d ∈ q, d.Queued := fun d hd => (hq.forall d hd).1
  rw [held_eq_union_iff hs hqq hs hqq hcs hc]
  obtain ⟨n, hn, hnp, hnl⟩ := hd
  have hd : Discarded r c q := ⟨n, hn, hnp, hnl⟩
  constructor
  · intro h
    refine ⟨fun _ hf hw => ?_, fun h => absurd hd h, fun h => absurd hd h, fun h => absurd hd h⟩
    have hF := hcs.fin hf
    obtain ⟨d, hdq, h1, h2⟩ := (h (c.pos r + c.len)).mpr
      (.inr ⟨(covers_of_fin hf).mpr ⟨by omega, le_rfl⟩, hw⟩)
    refine ⟨d, hdq, ?_⟩
    by_contra hdf
    have he := (hs d hdq).ends _ hF
    rw [(hqq d hdq).tcplen_eq_len hdf] at h2
    omega
  · intro h x
    refine ⟨.inl, ?_⟩
    rintro (hx | ⟨⟨h1, h2⟩, hw⟩)
    · exact hx
    by_cases hx : x < c.pos r + c.len
    · have hl := n.len_le_tcplen
      exact ⟨n, hn, by omega, by omega⟩
    · have hf : c.tcphdr.flags.fin = true := by
        by_contra hf
        rw [hc.tcplen_eq_len hf] at h2
        omega
      rw [c.tcplen_of_fin hf] at h2
      obtain rfl : x = c.pos r + c.len := by omega
      obtain ⟨d, hdq, hdf⟩ := h.fin hd hf hw
      have hF := (hs d hdq).fin hdf
      rw [hcs.fin hf, Option.some.injEq] at hF
      exact ⟨d, hdq, (covers_of_fin hdf).mpr ⟨by omega, hF.le⟩⟩

/-- A segment behind a FIN. -/
theorem held_closed_iff (hq : OosSorted r 1 q) (hs : ∀ d ∈ q, OfStream f F r d) (hc : c.Queued)
    (hcs : OfStream f F r c) (hw : c.pos r < w) (hd : d ∈ q) (hf : d.tcphdr.flags.fin = true)
    (hlt : d.pos r < c.pos r) :
    held r q = held r q ∪ { y ∈ c.items r | y.1 < w } ↔ OosMerges r w c q := by
  have hqq : ∀ d ∈ q, d.Queued := fun d hd => (hq.forall d hd).1
  -- the one with FIN is the last one
  have hlast : ∀ n ∈ q, n.pos r ≤ d.pos r ∧ (n.tcphdr.flags.fin = false → n.pos r + n.len ≤ d.pos r) := by
    obtain ⟨a, b, rfl⟩ := List.append_of_mem hd
    obtain rfl := hq.drop.2.2.1 hf
    intro n hn
    rcases List.mem_append.mp hn with hn | hn
    · obtain ⟨h1, h2⟩ := hq.apart n hn d (by simp)
      exact ⟨by omega, fun _ => h2⟩
    · obtain rfl := List.mem_singleton.mp hn
      refine ⟨le_rfl, fun h => ?_⟩
      rw [hf] at h
      cases h
  have hnd : ¬ Discarded r c q := by
    rintro ⟨n, hn, hp, -⟩
    have hle := (hlast n hn).1
    omega
  have hnf : ¬ InFront r c q := by
    rintro (rfl | ⟨n, hn, hp⟩)
    · cases hd
    · have hle := (hlast n hn).1
      omega
  rw [held_eq_union_iff hs hqq hs hqq hcs hc]
  refine iff_of_true (fun x => ⟨.inl, ?_⟩) ⟨fun h => absurd h hnd, fun _ n hn hp hnf => ?_,
    fun _ h => absurd h hnf, fun _ n hn hp => ?_⟩
  · rintro (hx | ⟨⟨h1, h2⟩, -⟩)
    · exact hx
    · have he := hcs.ends _ ((hs d hd).fin hf)
      have ht := c.tcplen_le
      exact ⟨d, hd, (covers_of_fin hf).mpr ⟨by omega, by omega⟩⟩
  · have hle := (hlast n hn).2 hnf
    exact ⟨by omega, fun _ => by omega⟩
  · have hle := (hlast n hn).1
    omega

/-- The check for an overrun cuts a segment to the window. -/
theorem windowTrim_ok (hw : w ≤ 65535) (hc : c.Queued) (hl : c.len ≤ 65507) (h0 : 0 ≤ c.pos r)
    (hlt : c.pos r < w) (hs : OfStream f F r c) : ∃ c', windowTrim r w c = .ok c' ∧ c'.Queued ∧
      OfStream f F r c' ∧ ∀ x, c'.Covers r x ↔ c.Covers r x ∧ x < w := by
  have ht := c.tcplen_le
  unfold windowTrim
  split
  · next hgt =>
    obtain ⟨w1, w2, w3⟩ := windowCut_wf hc.toWf h0 hlt hw hgt
    have hcut : (windowCut r w c).Queued := ⟨w1, hc.syn⟩
    have hnf : (windowCut r w c).tcphdr.flags.fin = false := rfl
    have htl := hcut.tcplen_eq_len (by simp [hnf])
    have hseq : c.tcphdr.seqno + u32 (u16 (windowCut r w c).tcplen) = r + u32 w := by
      refine dist_eq_zero ?_
      have e1 : dist (c.tcphdr.seqno + u32 (windowCut r w c).len) r = w := by
        rw [dist_add_u32 _ _ _ (by show c.pos r + _ < _; omega)]
        show c.pos r + _ = _
        omega
      have e2 : dist (r + u32 w) r = w := by
        rw [dist_add_u32 _ _ _ (by rw [dist_self]; omega), dist_self, zero_add]
      rw [htl, u16_of_lt (by omega), dist_eq_sub (by decide) r (inHalf_32.mpr (by omega)), e1, e2,
        sub_self]
    refine ⟨windowCut r w c, ?_, hcut, hs.take rfl hnf w3 (bytes_pbufRealloc _ _), fun x => ?_⟩
    · unfold lwipAssert
      rw [if_pos hseq]
      rfl
    · have hp : (windowCut r w c).pos r = c.pos r := rfl
      have hle := c.len_le_tcplen
      rw [covers_of_not_fin hcut hnf, hp, w2]
      unfold TcpSeg.Covers
      omega
  · next hgt =>
    have hle := end_le_of_not_gt h0 ⟨hlt, hw⟩ (by omega) hgt
    refine ⟨c, rfl, hc, hs, fun x => ?_⟩
    unfold TcpSeg.Covers
    omega

/-- A segment that goes behind the last one. -/
theorem held_append_iff (hw : w ≤ 65535) (hq : OosSorted r 1 q) (hs : ∀ d ∈ q, OfStream f F r d)
    (hc : c.Queued) (hl : c.len ≤ 65507) (hcs : OfStream f F r c) (h0 : 0 < c.pos r)
    (hcw : c.pos r < w) (hne : q ≠ []) (hlt : ∀ d ∈ q, d.pos r < c.pos r)
    (hf : ∀ d ∈ q, d.tcphdr.flags.fin = false) :
    (∃ q', (modifyLast (oosTrimPrev · c.tcphdr.seqno) q ++ [·]) <$> windowTrim r w c = .ok q' ∧
      held r q' = held r q ∪ { y ∈ c.items r | y.1 < w }) ↔ OosMerges r w c q := by
  have hqq : ∀ d ∈ q, d.Queued := fun d hd => (hq.forall d hd).1
  obtain ⟨c', hc', h1, h2, h3⟩ := windowTrim_ok hw hc hl h0.le hcw hcs
  have hnd : ¬ Discarded r c q := by
    rintro ⟨n, hn, hp, -⟩
    have hle := hlt n hn
    omega
  have hnf : ¬ InFront r c q := by
    rintro (h | ⟨n, hn, hp⟩)
    · exact hne h
    · have hle := hlt n hn
      omega
  have hpre := ofStream_modifyLast (c := c) (by decide : (0 : ℤ) ≤ 1) hq hlt hf hs
  have hall : ∀ d ∈ modifyLast (oosTrimPrev · c.tcphdr.seqno) q ++ [c'],
      OfStream f F r d ∧ d.Queued := by
    intro d hd
    rcases List.mem_append.mp hd with hd | hd
    · exact hpre d hd
    · obtain rfl := List.mem_singleton.mp hd
      exact ⟨h2, h1⟩
  have hcov (x : ℤ) : Covered r (modifyLast (oosTrimPrev · c.tcphdr.seqno) q ++ [c']) x ↔
      (Covered r q x ∧ x < c.pos r) ∨ (c.Covers r x ∧ x < w) := by
    have hnil : ¬ Covered r [] x := not_covered_nil
    rw [covered_append, covered_modifyLast (by decide : (0 : ℤ) ≤ 1) hq hlt hf, covered_cons, h3]
    tauto
  have hct := c.len_le_tcplen
  have ht0 := hc.tcplen_pos
  rw [hc']
  show (∃ q', Except.ok (modifyLast (oosTrimPrev · c.tcphdr.seqno) q ++ [c']) = Except.ok q' ∧ _) ↔ _
  simp only [Except.ok.injEq, exists_eq_left']
  rw [held_eq_union_iff hs hqq (fun d hd => (hall d hd).1) (fun d hd => (hall d hd).2) hcs hc]
  simp only [hcov]
  constructor
  · intro h
    refine ⟨fun h => absurd h hnd, fun _ d hd hp hdf => ?_, fun _ h => absurd h hnf,
      fun _ n hn hp => ?_⟩
    · have hdc (x : ℤ) : d.Covers r x ↔ d.pos r ≤ x ∧ x < d.pos r + d.len :=
        covers_of_not_fin (hqq d hd) hdf
      have hx (x : ℤ) (hx : d.Covers r x) := (h x).mpr (.inl ⟨d, hd, hx⟩)
      refine ⟨?_, fun _ => ?_⟩
      · by_contra hlt
        rcases hx (c.pos r + c.tcplen) ((hdc _).mpr ⟨by omega, by omega⟩) with ⟨-, h⟩ | ⟨⟨-, h⟩, -⟩
        · omega
        · omega
      · by_contra hlt
        rcases hx w ((hdc _).mpr ⟨by omega, by omega⟩) with ⟨-, h⟩ | ⟨-, h⟩
        · omega
        · omega
    · have hle := hlt n hn
      omega
  · intro h x
    constructor
    · rintro (h | h)
      · exact .inl h.1
      · exact .inr h
    · rintro (⟨d, hd, hx⟩ | hx)
      · by_cases hxp : x < c.pos r
        · exact .inl ⟨⟨d, hd, hx⟩, hxp⟩
        · obtain ⟨g1, g2⟩ := h.inner hnd d hd (hlt d hd) (hf d hd)
          have g3 := g2 hnf
          obtain ⟨-, h2⟩ := (covers_of_not_fin (hqq d hd) (hf d hd)).mp hx
          exact .inr ⟨⟨by omega, by omega⟩, by omega⟩
      · exact .inr hx

theorem covered_of_mem_held {y : ℤ × Option Byte} (hq : ∀ c ∈ q, c.Queued) (h : y ∈ held r q) :
    Covered r q y.1 := by
  obtain ⟨c, hc, hy⟩ := h
  exact ⟨c, hc, covers_of_item (hq c hc) hy⟩

/-- The last byte of a segment. -/
theorem exists_last_item (hd : d.Queued) (hl : 0 < d.len) :
    ∃ b, (d.pos r + d.len - 1, some b) ∈ d.items r := by
  have hi : d.len - 1 < (bytes d.p).length := by
    rw [length_bytes, ← hd.len_eq]
    omega
  refine ⟨(bytes d.p)[d.len - 1], .inl ⟨d.len - 1, _, List.getElem?_eq_getElem hi, ?_⟩⟩
  congr 1
  omega

theorem OosSorted.left (h : OosSorted r lo (pre ++ rest)) : OosSorted r lo pre := by
  induction pre generalizing lo with
  | nil => trivial
  | cons d pre ih =>
    obtain ⟨h1, h2, h3, h4⟩ := h
    exact ⟨h1, h2, fun hf => (List.append_eq_nil_iff.mp (h3 hf)).1, ih h4⟩

/-- A segment whose end is too far away to compare is removed with all in front of it. -/
theorem tcpOosInsertSegment_wrap (hq : OosSorted r (c.pos r) rest) (h0 : 0 < c.pos r)
    (hc : c.Queued) (hf : ¬ c.tcphdr.flags.fin = true) (hd : d ∈ rest)
    (hfar : c.pos r + c.len + 2147483648 < d.pos r + d.len)
    (hall : ∀ n ∈ rest, n.pos r < d.pos r → n.pos r + n.len ≤ c.pos r + c.len) :
    tcpOosInsertSegment c rest = [c] ∨ tcpOosInsertSegment c rest = [c.setFin] := by
  unfold tcpOosInsertSegment
  rw [if_neg hf]
  obtain ⟨gone, rest', rfl, -, e3, ⟨e4, -⟩ | ⟨-, e4, -⟩⟩ := oosCovered_split (c := c) hq
  · rw [e4]
    cases rest' with
    | nil => exact .inl rfl
    | cons h tl =>
      exfalso
      have hh := hq.forall h (by simp)
      have hnot := mt (dataEnd_geq_dataEnd h0.le hh.2 hc.len_le hh.1.len_le).mpr (e3 h (by simp))
      have hu := h.pos_lt r
      have hlt : h.pos r < d.pos r := by
        rcases List.mem_append.mp hd with hd | hd
        · have ha := (hq.apart d hd h (by simp)).2
          omega
        · rcases List.mem_cons.mp hd with rfl | hd
          · exact absurd (.inr hfar) hnot
          · have hs := hq.drop.2.2.2.forall d hd
            omega
      exact hnot (.inl (hall h (by simp) hlt))
  · rw [e4]
    exact .inr rfl

/-- A segment that goes in front of others. -/
theorem held_put_iff (hq : OosSorted r 1 (pre ++ rest)) (hs : ∀ d ∈ pre ++ rest, OfStream f F r d)
    (hc : c.Queued) (hcs : OfStream f F r c) (h0 : 0 < c.pos r) (hne : rest = [] → pre ++ rest = [])
    (hi : InsertedAt r c pre rest) :
    held r (modifyLast (oosTrimPrev · c.tcphdr.seqno) pre ++ tcpOosInsertSegment c rest) =
        held r (pre ++ rest) ∪ { y ∈ c.items r | y.1 < w } ↔
      OosMerges r w c (pre ++ rest) := by
  obtain ⟨i1, i2, i3, i4⟩ := hi
  have hqq : ∀ d ∈ pre ++ rest, d.Queued := fun d hd => (hq.forall d hd).1
  have hpq : OosSorted r 1 pre := hq.left
  have hrest : OosSorted r (c.pos r) rest := by
    cases rest with
    | nil => trivial
    | cons d rest => exact ⟨i3 d (by simp), hq.drop.2⟩
  have hnd : ¬ Discarded r c (pre ++ rest) := by
    rintro ⟨n, hn, hp, hl⟩
    rcases List.mem_append.mp hn with hn | hn
    · have hlt := i1 n hn
      omega
    · cases rest with
      | nil => cases hn
      | cons d rest =>
        rcases List.mem_cons.mp hn with rfl | hn
        · have hlt := i4 n rfl hp
          omega
        · have hle := (hrest.2.2.2.forall n hn).2
          have hd := i3 d (by simp)
          omega
  have hnf : InFront r c (pre ++ rest) := by
    cases rest with
    | nil => exact .inl (hne rfl)
    | cons d rest => exact .inr ⟨d, by simp, i3 d (by simp)⟩
  have hpre := ofStream_modifyLast (c := c) (by decide : (0 : ℤ) ≤ 1) hpq i1 i2
    fun d hd => hs d (List.mem_append_left _ hd)
  have hcovp (x : ℤ) := covered_modifyLast (x := x) (by decide : (0 : ℤ) ≤ 1) hpq i1 i2
  have hnew := tcpOosInsertSegment_sorted hrest i4 h0.le hc
  by_cases hwrap : NoWrap r c (pre ++ rest)
  · have hwr : NoWrap r c rest := by
      intro d hd hp hfar
      obtain ⟨n, hn, h1, h2, h3⟩ := hwrap d (List.mem_append_right _ hd) hp hfar
      rcases List.mem_append.mp hn with hn | hn
      · have hlt := i1 n hn
        omega
      · exact ⟨n, hn, h1, h2, h3⟩
    obtain ⟨hcov, hstr⟩ := covered_tcpOosInsertSegment hrest i4 h0 hc hwr hcs
      fun d hd => hs d (List.mem_append_right _ hd)
    have hall : ∀ d ∈ modifyLast (oosTrimPrev · c.tcphdr.seqno) pre ++ tcpOosInsertSegment c rest,
        OfStream f F r d ∧ d.Queued := by
      intro d hd
      rcases List.mem_append.mp hd with hd | hd
      · exact hpre d hd
      · exact ⟨hstr d hd, (hnew.forall d hd).1⟩
    rw [held_eq_union_iff hs hqq (fun d hd => (hall d hd).1) (fun d hd => (hall d hd).2) hcs hc]
    simp only [covered_append, hcovp, hcov]
    have hct := c.len_le_tcplen
    constructor
    · intro h
      refine ⟨fun h => absurd h hnd, fun _ d hd hp hdf => ⟨?_, fun h => absurd hnf h⟩,
        fun _ _ x hx hw => ?_, fun _ => hwrap⟩
      · by_contra hlt
        have hdp : d ∈ pre := by
          rcases List.mem_append.mp hd with hd | hd
          · exact hd
          · have hle := i3 d hd
            omega
        have hdx : Covered r pre (c.pos r + c.tcplen) :=
          ⟨d, hdp, (covers_of_not_fin (hqq d hd) hdf).mpr ⟨by omega, by omega⟩⟩
        rcases (h (c.pos r + c.tcplen)).mpr (.inl (.inl hdx)) with ⟨-, h⟩ | ⟨-, h⟩ | ⟨n, hn, h, -⟩
        · omega
        · omega
        · have ha := (hq.apart d hdp n hn).2
          omega
      · rcases (h x).mp (.inr (.inl hx)) with h | ⟨-, h⟩
        · exact covered_append.mpr h
        · omega
    · intro h x
      constructor
      · rintro (⟨h, -⟩ | hx | h)
        · exact .inl (.inl h)
        · by_cases hw : x < w
          · exact .inr ⟨hx, hw⟩
          · exact .inl (covered_append.mp (h.overrun hnd hnf x hx (by omega)))
        · exact .inl (.inr h)
      · rintro ((⟨d, hd, hx⟩ | hx) | ⟨hx, -⟩)
        · by_cases hxp : x < c.pos r
          · exact .inl ⟨⟨d, hd, hx⟩, hxp⟩
          · have hdq := List.mem_append_left rest hd
            have hle := (h.inner hnd d hdq (i1 d hd) (i2 d hd)).1
            obtain ⟨-, h2⟩ := (covers_of_not_fin (hqq d hdq) (i2 d hd)).mp hx
            exact .inr (.inl ⟨by omega, by omega⟩)
        · exact .inr (.inr hx)
        · exact .inr (.inl hx)
  · refine iff_of_false (fun h => ?_) fun h => hwrap (h.wrap hnd)
    -- the last byte of the segment that is too far away is lost
    unfold NoWrap at hwrap
    push Not at hwrap
    obtain ⟨d, hd, hp, hfar, hall⟩ := hwrap
    have hdr : d ∈ rest := by
      rcases List.mem_append.mp hd with hd | hd
      · have hlt := i1 d hd
        omega
      · exact hd
    have hdu := d.pos_lt r
    have hf : ¬ c.tcphdr.flags.fin = true := fun hf => by
      have hle := (hs d hd).ends _ (hcs.fin hf)
      omega
    have hto := tcpOosInsertSegment_wrap hrest h0 hc hf hdr hfar fun n hn hlt =>
      hall n (List.mem_append_right _ hn) (i3 n hn) hlt
    obtain ⟨b, hb⟩ := exists_last_item (r := r) (hqq d hd) (by omega)
    have hmem : (d.pos r + d.len - 1, some b) ∈ held r
        (modifyLast (oosTrimPrev · c.tcphdr.seqno) pre ++ tcpOosInsertSegment c rest) := by
      rw [h]
      exact .inl ⟨d, hd, hb⟩
    have hcov := covered_of_mem_held (fun e he => ?_) hmem
    · have hct := c.tcplen_le
      have hcs := c.setFin.tcplen_le
      have hsp : c.setFin.pos r = c.pos r := rfl
      have hsl : c.setFin.len = c.len := rfl
      rw [covered_append, hcovp] at hcov
      rcases hcov with ⟨-, hlt⟩ | ⟨n, hn, -, hlt⟩
      · dsimp only at hlt
        omega
      · dsimp only at hlt
        rcases hto with hto | hto <;> rw [hto] at hn <;> obtain rfl := List.mem_singleton.mp hn
        · omega
        · omega
    · rcases List.mem_append.mp he with he | he
      · exact (hpre e he).2
      · exact (hnew.forall e he).1

/-- What the walk over ooseq makes of an arriving segment. -/
theorem oosInsert_merges (hw : w ≤ 65535) (hq : OosSorted r 1 q) (hs : ∀ d ∈ q, OfStream f F r d)
    (hc : c.Queued) (hl : c.len ≤ 65507) (hcs : OfStream f F r c) (h0 : 0 < c.pos r)
    (hcw : c.pos r < w) :
    (∃ q', (oosInsert r w c q).getD (.ok q) = .ok q' ∧
      held r q' = held r q ∪ { y ∈ c.items r | y.1 < w }) ↔ OosMerges r w c q := by
  have ho := oosInsert_outcome (w := w) hq h0
  generalize oosInsert r w c q = o at ho
  cases ho with
  | held hd hp hle =>
    rw [Option.getD_none]
    simp only [Except.ok.injEq, exists_eq_left']
    exact held_discarded_iff hq hs hc hcs ⟨_, hd, hp, hle⟩
  | closed hd hf hlt =>
    rw [Option.getD_none]
    simp only [Except.ok.injEq, exists_eq_left']
    exact held_closed_iff hq hs hc hcs hcw hd hf hlt
  | put hpre hne hi =>
    subst hpre
    rw [Option.getD_some]
    simp only [Except.ok.injEq, exists_eq_left']
    exact held_put_iff hq hs hc hcs h0 hne hi
  | append hne hlt hf => exact held_append_iff hw hq hs hc hl hcs h0 hcw hne hlt hf

end Merges

/-! ## `tcp_receive` -/

section Receive

variable {f : ℤ → Byte} {F : Option ℤ}

theorem tcpReceiveData_outseq (hst : s.pcb.state.num < TcpState.CLOSE_WAIT.num)
    (hw : s.pcb.rcvWnd ≤ 65535) (hl : 0 < seg.tcplen) (h0 : 0 < dist seg.seqno s.pcb.rcvNxt)
    (hlt : dist seg.seqno s.pcb.rcvNxt < s.pcb.rcvWnd) :
    tcpReceiveData s seg = tcpReceiveOutseq s seg.inseg := by
  have hb := seg.bound
  have htl : seg.tcplen = seg.inseg.tcplen := rfl
  have htl' := seg.inseg.tcplen_le
  have hlen : seg.inseg.len = totLen seg.p := rfl
  have hno : ¬ overlaps s.pcb.rcvNxt seg := by
    intro ho
    obtain ⟨o1, -⟩ := (overlap_iff (by omega) hl (by omega)).mp ho
    omega
  have hnl : ¬ tcpSeqLt seg.seqno s.pcb.rcvNxt := by
    unfold tcpSeqLt
    omega
  have hin : inWindow s.pcb seg.inseg.tcphdr.seqno :=
    (inWindow_iff hw (.inr (by omega))).mpr ⟨h0.le, hlt⟩
  have hne : s.pcb.rcvNxt ≠ seg.inseg.tcphdr.seqno := by
    intro he
    rw [show seg.seqno = s.pcb.rcvNxt from he.symm, dist_self] at h0
    omega
  unfold tcpReceiveData
  rw [if_pos ⟨hl, hst⟩]
  unfold tcpReceiveFirstEdge
  rw [if_neg hno]
  show tcpReceiveSegment (tcpReceiveDup s seg) seg.inseg = _
  unfold tcpReceiveDup
  rw [if_neg (fun h => hnl h.2)]
  unfold tcpReceiveSegment
  rw [if_pos hin, if_neg hne]

/-- What becomes of ooseq when the copy of the segment succeeds. -/
theorem tcpReceiveOutseq_copy {P : List TcpSeg → Prop} (hcopy : (tcpSendEmptyAck s).2.pop.1 = false) :
    (∃ s', tcpReceiveOutseq s c = .ok s' ∧ P s'.pcb.ooseq) ↔
      ∃ q', (oosInsert s.pcb.rcvNxt s.pcb.rcvWnd c s.pcb.ooseq).getD (.ok s.pcb.ooseq) = .ok q' ∧
        P q' := by
  unfold tcpReceiveOutseq
  have hs := rcvView_tcpSendEmptyAck s
  dsimp only
  generalize (tcpSendEmptyAck s).2 = s₁ at hs hcopy
  have e1 : s₁.pcb.rcvNxt = s.pcb.rcvNxt := congrArg RcvView.rcvNxt hs
  have e2 : s₁.pcb.rcvWnd = s.pcb.rcvWnd := congrArg RcvView.rcvWnd hs
  have e3 : s₁.pcb.ooseq = s.pcb.ooseq := congrArg RcvView.ooseq hs
  rw [e1, e2, e3]
  cases oosInsert s.pcb.rcvNxt s.pcb.rcvWnd c s.pcb.ooseq with
  | none =>
    rw [Option.getD_none]
    simp only [Except.ok.injEq, exists_eq_left', e3]
  | some queue =>
    rw [Option.getD_some]
    simp only [hcopy]
    cases queue with
    | error e => simp [bind, Except.bind]
    | ok q' => simp [bind, Except.bind]

/-- An arriving segment that is ahead of `rcv_nxt` and in the window is merged into ooseq, and
    nothing is lost, exactly when `OosMerges` holds. -/
theorem ooseq_merges (hst : s.pcb.state.num < TcpState.CLOSE_WAIT.num)
    (hw : s.pcb.rcvWnd ≤ 65535) (hq : OosWf s.pcb.rcvNxt s.pcb.ooseq) (hl : 0 < seg.tcplen)
    (hsyn : seg.flags.syn = false) (h0 : 0 < dist seg.seqno s.pcb.rcvNxt)
    (hlt : dist seg.seqno s.pcb.rcvNxt < s.pcb.rcvWnd)
    (hs : ∀ d ∈ seg.inseg :: s.pcb.ooseq, OfStream f F s.pcb.rcvNxt d)
    (hcopy : (tcpSendEmptyAck s).2.pop.1 = false) :
    (∃ s', tcpReceiveData s seg = .ok s' ∧ held s.pcb.rcvNxt s'.pcb.ooseq =
      held s.pcb.rcvNxt s.pcb.ooseq ∪
        { y ∈ seg.inseg.items s.pcb.rcvNxt | y.1 < s.pcb.rcvWnd }) ↔
      OosMerges s.pcb.rcvNxt s.pcb.rcvWnd seg.inseg s.pcb.ooseq := by
  have hb := seg.bound
  have hlen : seg.inseg.len = totLen seg.p := rfl
  have hc : seg.inseg.Queued := ⟨⟨hlen, by omega, hl⟩, hsyn⟩
  obtain ⟨hcs, hqs⟩ := List.forall_mem_cons.mp hs
  rw [tcpReceiveData_outseq hst hw hl h0 hlt, ← oosInsert_merges hw (oosSorted_iff.mpr hq) hqs hc
    (by omega) hcs h0 hlt]
  exact tcpReceiveOutseq_copy (P := fun q' => held s.pcb.rcvNxt q' = held s.pcb.rcvNxt s.pcb.ooseq ∪
    { y ∈ seg.inseg.items s.pcb.rcvNxt | y.1 < s.pcb.rcvWnd }) hcopy

end Receive

/-! ### Two segments -/

/-- Three bytes arrive early. -/
def threeBytes : InSegment where
  tcphdr := serverHdr 5 1000 { ack := true } TCP_WND
  p := [{ payload := [7, 7, 7] }]
  bound := threeBytes_bound

/-- The second one of them arrives again. -/
def middleByte : InSegment where
  tcphdr := serverHdr 6 1000 { ack := true } TCP_WND
  p := [{ payload := [7] }]
  bound := oneByte_bound

/-- Three bytes behind a gap of four. -/
def lateBytes : InSegment where
  tcphdr := serverHdr 12 1000 { ack := true } TCP_WND
  p := [{ payload := [7, 7, 7] }]
  bound := threeBytes_bound

/-- What fills the gap, with a byte of the segments on both sides. -/
def gapBytes : InSegment where
  tcphdr := serverHdr 7 1000 { ack := true } TCP_WND
  p := [{ payload := [7, 7, 7, 7, 7, 7] }]
  bound := by decide

theorem ofStream_sevens (hb : ∀ b ∈ bytes c.p, b = 7)
    (hf : c.tcphdr.flags.fin = false) : OfStream (fun _ => 7) none r c where
  data i b hi := hb b (List.mem_of_getElem? hi)
  fin h := by
    rw [hf] at h
    cases h
  ends e he := by cases he

theorem oosMerges_gap :
    OosMerges 1 TCP_WND gapBytes.inseg [threeBytes.inseg, lateBytes.inseg] where
  fin _ h := by cases h
  inner _ := by
    refine List.forall_mem_cons.mpr ⟨fun _ _ => ⟨by decide, fun _ => by decide⟩, ?_⟩
    exact List.forall_mem_singleton.mpr fun h => absurd h (by decide)
  overrun _ _ x hx hw := by
    have hlt := hx.2
    have hend : gapBytes.inseg.pos 1 + gapBytes.inseg.tcplen ≤ TCP_WND := by decide
    omega
  wrap _ d hd _ hfar := by
    have hend : ∀ d ∈ [threeBytes.inseg, lateBytes.inseg],
        d.pos 1 + d.len ≤ gapBytes.inseg.pos 1 + gapBytes.inseg.len + 2147483648 := by decide
    exact absurd hfar (not_lt.mpr (hend d hd))

set_option maxRecDepth 4000 in
theorem ooseq_merges_gap : ∃ s s' : St Unit, Run.exec (connStep idleApp) client
    [connectOp, synAckOp TCP_WND, ([], .input threeBytes), ([], .input lateBytes)] = .ok s ∧
      s.pcb.ooseq = [threeBytes.inseg, lateBytes.inseg] ∧ tcpReceiveData s gapBytes = .ok s' ∧
      held s.pcb.rcvNxt s'.pcb.ooseq = held s.pcb.rcvNxt s.pcb.ooseq ∪
        { y ∈ gapBytes.inseg.items s.pcb.rcvNxt | y.1 < s.pcb.rcvWnd } := by
  obtain ⟨s, hr, hst, hw, hq, hn, hcopy⟩ : ∃ s : St Unit, Run.exec (connStep idleApp) client
      [connectOp, synAckOp TCP_WND, ([], .input threeBytes), ([], .input lateBytes)] = .ok s ∧
        s.pcb.state = .ESTABLISHED ∧ s.pcb.rcvWnd = TCP_WND ∧
        s.pcb.ooseq = [threeBytes.inseg, lateBytes.inseg] ∧ s.pcb.rcvNxt = 1 ∧
        (tcpSendEmptyAck s).2.pop.1 = false := ⟨_, rfl, rfl, rfl, rfl, rfl, rfl⟩
  have hwf : OosWf s.pcb.rcvNxt s.pcb.ooseq := by
    rw [hq, hn]
    constructor <;> decide
  have hstream : ∀ d ∈ gapBytes.inseg :: s.pcb.ooseq,
      OfStream (fun _ => 7) none s.pcb.rcvNxt d := by
    rw [hq]
    refine List.forall_mem_cons.mpr ⟨ofStream_sevens (by decide) rfl, ?_⟩
    refine List.forall_mem_cons.mpr ⟨ofStream_sevens (by decide) rfl, ?_⟩
    exact List.forall_mem_singleton.mpr (ofStream_sevens (by decide) rfl)
  have hmerge : OosMerges s.pcb.rcvNxt s.pcb.rcvWnd gapBytes.inseg s.pcb.ooseq := by
    rw [hq, hn, hw]
    exact oosMerges_gap
  obtain ⟨s', h, hu⟩ := (ooseq_merges (by rw [hst]; decide) (by rw [hw]; decide) hwf (by decide)
    rfl (by rw [hn]; decide) (by rw [hn, hw]; decide) hstream hcopy).mpr hmerge
  exact ⟨s, s', hr, hq, h, hu⟩

set_option maxRecDepth 4000 in
/-- The second byte of three cuts the segment that holds them, and the third one is lost. -/
theorem ooseq_merges_fails : ∃ s s' : St Unit, Run.exec (connStep idleApp) client
    [connectOp, synAckOp TCP_WND, ([], .input threeBytes)] = .ok s ∧
      s.pcb.state.num < TcpState.CLOSE_WAIT.num ∧ OosWf s.pcb.rcvNxt s.pcb.ooseq ∧
      0 < dist middleByte.seqno s.pcb.rcvNxt ∧
      dist middleByte.seqno s.pcb.rcvNxt < s.pcb.rcvWnd ∧
      (∀ d ∈ middleByte.inseg :: s.pcb.ooseq, OfStream (fun _ => 7) none s.pcb.rcvNxt d) ∧
      (tcpSendEmptyAck s).2.pop.1 = false ∧ tcpReceiveData s middleByte = .ok s' ∧
      (6, some 7) ∈ held s.pcb.rcvNxt s.pcb.ooseq ∧
      (6, some 7) ∉ held s.pcb.rcvNxt s'.pcb.ooseq := by
  refine ⟨_, _, rfl, by decide, ?_, by decide, by decide, ?_, rfl, rfl, ?_, ?_⟩
  · show OosWf 1 [threeBytes.inseg]
    constructor <;> decide
  · show ∀ d ∈ [middleByte.inseg, threeBytes.inseg], OfStream (fun _ => 7) none 1 d
    refine List.forall_mem_cons.mpr ⟨ofStream_sevens (by decide) rfl, ?_⟩
    exact List.forall_mem_singleton.mpr (ofStream_sevens (by decide) rfl)
  · exact ⟨threeBytes.inseg, List.mem_cons_self, .inl ⟨2, 7, rfl, by decide⟩⟩
  · show (6, some 7) ∉ held 1 [threeBytes.inseg.cut 1, middleByte.inseg]
    rintro ⟨d, hd, hx⟩
    have hend : ∀ d ∈ [threeBytes.inseg.cut 1, middleByte.inseg], d.Queued ∧
        d.pos 1 + d.tcplen ≤ 6 := by
      refine List.forall_mem_cons.mpr ⟨⟨⟨⟨rfl, by decide, by decide⟩, rfl⟩, by decide⟩, ?_⟩
      exact List.forall_mem_singleton.mpr ⟨⟨⟨rfl, by decide, by decide⟩, rfl⟩, by decide⟩
    obtain ⟨hq, hle⟩ := hend d hd
    have hlt := (covers_of_item hq hx).2
    dsimp only at hlt
    omega

end Rudp

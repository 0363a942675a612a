import Rudp.Flight

/-!
# Facts about every queued segment

`SegRule φ` lists what can happen to a queued segment. What holds of new segments, and survives the
list, holds of every segment on the queues in every run.

Results:
* `preserved_segInv`: every operation keeps it.
* `segRule_bare`: a SYN occupies one pbuf without data, and nothing is added to it.
-/

namespace Rudp

variable {W : Type} {s s' : St W} {φ : TcpSeg → Prop}

/-- What `φ` has to survive. -/
structure SegRule (φ : TcpSeg → Prop) : Prop where
  resent {a b : TcpSeg} : φ a → a.Resent b → φ b
  /-- A `tcp_write` that fails behind its phase 2. -/
  bump {seg : TcpSeg} (n : ℕ) : φ seg → 0 < seg.len → φ { seg with oversizeLeft := n }
  grow {last last' : TcpSeg} {ext : List Byte} : φ last → Extends last last' ext →
    (last.len = 0 → Fills last last' ext) → φ last'
  data {id : ConnectId} {copy : Bool} {m : ℕ} {seqno : U32} {data : List Byte} {q : List TcpSeg} :
    m ≤ TCP_MSS → Segmented id copy m seqno data q → ∀ seg ∈ q, φ seg
  setFin {seg : TcpSeg} : φ seg → seg.tcphdr.flags.plain = true → φ seg.setFin
  fin (pcb : Pcb) : φ (pcb.flagSeg { fin := true })

/-- `φ` holds of every queued segment. -/
structure SegInv (φ : TcpSeg → Prop) (c : Core) : Prop where
  mss : c.mss ≤ TCP_MSS
  segs : ∀ seg ∈ c.segs, φ seg

namespace SegInv

variable {c c' : Core}

theorem congr (h : SegInv φ c) (hmss : c'.mss = c.mss)
    (hq : ∀ seg ∈ c'.segs, seg ∈ c.segs ∨ φ seg) : SegInv φ c' where
  mss := hmss ▸ h.mss
  segs seg hs := (hq seg hs).elim (h.segs seg) id

theorem moves (hφ : SegRule φ) (h : SegInv φ c) (hm : Moves c c') : SegInv φ c' where
  mss := hm.mss ▸ h.mss
  segs := by
    intro seg hs
    obtain ⟨seg₀, h₀, hr⟩ := hm.segs seg hs
    exact hφ.resent (h.segs seg₀ h₀) hr

theorem emit (h : SegInv φ s.core) {o : Out} (ho : o.Silent) : SegInv φ (s.emit o).core := by
  rw [core_emit ho]
  exact ⟨h.mss, h.segs⟩

/-- Queueing changes `unsent` only. -/
theorem queues (h : SegInv φ s.core) (hs : SameConn s.core s'.core)
    (hq : ∀ seg ∈ s'.pcb.unsent, seg ∈ s.pcb.unsent ∨ φ seg) : SegInv φ s'.core := by
  apply h.congr hs.mss
  intro seg hm
  rcases List.mem_append.mp hm with hm | hm
  · exact (hq seg hm).imp_left (List.mem_append_left _)
  · exact .inl (List.mem_append_right _ (hs.unacked ▸ hm))

/-- The last segment of `unsent`. -/
theorem last (h : SegInv φ s.core) {init : List TcpSeg} {last : TcpSeg}
    (hu : s.pcb.unsent = init ++ [last]) : φ last := by
  apply h.segs last
  apply List.mem_append_left
  show last ∈ s.pcb.unsent
  rw [hu]
  simp

/-- The last segment of `unsent` is replaced, and others are put behind it. -/
theorem replace (h : SegInv φ s.core) (hs : SameConn s.core s'.core) {init queue : List TcpSeg}
    {last last' : TcpSeg} (hu : s.pcb.unsent = init ++ [last])
    (hu' : s'.pcb.unsent = init ++ last' :: queue) (hl : φ last') (hq : ∀ seg ∈ queue, φ seg) :
    SegInv φ s'.core := by
  apply h.queues hs
  intro seg hm
  rw [hu'] at hm
  rw [hu]
  simp only [List.mem_append, List.mem_cons, List.not_mem_nil, or_false] at hm ⊢
  rcases hm with hm | rfl | hm
  · exact .inl (.inl hm)
  · exact .inr hl
  · exact .inr (hq seg hm)

theorem write (hφ : SegRule φ) (h : SegInv φ s.core) {arg : List Byte} {copy more : Bool} {err : Err}
    (hw : tcpWrite s arg copy more = .ok (err, s')) : SegInv φ s'.core := by
  have hs := (tcpWrite_queues hw).sameConn
  rcases tcpWrite_spec h.mss hw with ⟨-, -, -, -, e | ⟨init, last, bump, e, e', hc⟩⟩ |
    ⟨-, -, -, -, ext, queue, hw⟩
  · apply h.queues hs
    intro seg hm
    exact .inl (e ▸ hm)
  · obtain ⟨last₀, hlast, -, -, hpos⟩ := hc
    have hl : last₀ = last := by
      rw [e, List.getLast?_concat] at hlast
      exact (Option.mem_some.mp hlast).symm
    exact h.replace hs e e' (hφ.bump bump (h.last e) (hl ▸ hpos)) (by simp)
  · obtain ⟨rest, -, hseg⟩ := hw.data
    have hnew := hφ.data (mssLocalOf_le.trans h.mss) hseg
    rcases hw.unsent with ⟨-, -, e'⟩ | ⟨init, last, last', e, e', hx, -, hf⟩
    · apply h.queues hs
      intro seg hm
      exact .inr (hnew seg (e' ▸ hm))
    · refine h.replace hs e e' (hφ.grow (h.last e) hx fun h0 => hf ?_) hnew
      rintro ⟨last₀, hlast, -, -, hpos⟩
      rw [e, List.getLast?_concat] at hlast
      obtain rfl := Option.mem_some.mp hlast
      omega

theorem fin (hφ : SegRule φ) (h : SegInv φ s.core) {err : Err}
    (hw : tcpSendFin s = .ok (err, s')) : SegInv φ s'.core := by
  have hs := (tcpSendFin_queues hw).sameConn
  rcases tcpSendFin_spec hw with ⟨-, -, -, -, e⟩ |
    ⟨-, -, ⟨init, last, e, hp, e', -⟩ | ⟨e', -⟩⟩
  · apply h.queues hs
    intro seg hm
    exact .inl (e ▸ hm)
  · exact h.replace hs e e' (hφ.setFin (h.last e) hp) (by simp)
  · apply h.queues hs
    intro seg hm
    rw [e'] at hm
    rcases List.mem_append.mp hm with hm | hm
    · exact .inl hm
    · obtain rfl := List.mem_singleton.mp hm
      exact .inr (hφ.fin s.pcb)

theorem process (hφ : SegRule φ) (h : SegInv φ s.core) {seg : InSegment} {after : St W → St W}
    (hafter : ∀ t, Settles t.core (after t).core)
    (hr : tcpProcessReceive s seg after = .ok s') : SegInv φ s'.core := by
  obtain ⟨c, s₁, hm, hv, -, c', hs, o, -, -, hc⟩ := processReceive_core hafter hr
  have hI := h.moves hφ hm
  have e2 : s₁.core.mss = c.mss := congrArg SndView.mss hv
  have e3 : s₁.core.unsent = c.unsent := congrArg SndView.unsent hv
  have e4 : s₁.core.unacked = c.unacked := congrArg SndView.unacked hv
  rw [hc]
  refine hI.congr (hs.mss.trans e2) ?_
  intro x hx
  change x ∈ c'.unsent ++ c'.unacked at hx
  rcases hs.queues with ⟨h1, h2⟩ | ⟨h1, h2, -⟩
  · rw [h1, h2, e3, e4] at hx
    exact .inl hx
  · rw [h1, h2] at hx
    cases hx

end SegInv

/-- What survives `SegRule` holds of the queued segments throughout. -/
theorem preserved_segInv (hφ : SegRule φ) :
    Preserved NoConnect (fun _ _ => True) fun s : St W => SegInv φ s.core where
  frame hI hc _ := hc ▸ hI
  callback ho hI := hI.emit (Out.silent_of_isCallback ho)
  connect hP := hP.elim
  write _ hw hI := by
    have h := hI.write hφ hw
    split
    · exact h.emit (Out.silent_wrote _)
    · exact h
  recved _ _ hI := ⟨hI.mss, hI.segs⟩
  fin _ _ _ hw hI := by
    have h := hI.fin hφ hw
    split
    · exact ⟨h.mss, h.segs⟩
    · exact h
  output hr hI := hI.moves hφ (moves_tcpOutput hr)
  rexmitRto hr hI := hI.moves hφ (moves_tcpRexmitRto hr)
  probe {s} hI := by
    obtain ⟨log, hc, -⟩ := probe_core s
    rw [hc]
    exact ⟨hI.mss, hI.segs⟩
  rexmit {s} _ hI := hI.moves hφ (moves_tcpRexmit s)
  rcvWndFin {s} hI := by
    unfold rcvWndFin
    split
    · exact ⟨hI.mss, hI.segs⟩
    · exact hI
  mss _ h1 hI := ⟨h1, hI.segs⟩
  establish {s _ _ rest} _ hq _ _ hI := by
    refine hI.congr rfl ?_
    intro seg hm
    change seg ∈ s.pcb.unsent ++ rest at hm
    left
    show seg ∈ s.pcb.unsent ++ s.pcb.unacked
    rw [hq]
    rcases List.mem_append.mp hm with hm | hm
    · exact List.mem_append_left _ hm
    · exact List.mem_append_right _ (List.mem_cons_of_mem _ hm)
  accept _ _ hI := ⟨hI.mss, hI.segs⟩
  receive _ _ hr hI := hI.process hφ (settles_tcpProcessAfter _ _) hr
  receiveAccept _ _ _ _ _ _ hr hI := hI.process hφ settles_tcpProcessAcceptAfter hr
  purge {s} _ hI := by
    unfold tcpPcbPurge
    split
    · exact ⟨hI.mss, fun _ h => (List.not_mem_nil h).elim⟩
    · exact hI
  timeWait _ _ _ _ _ _ hI := ⟨hI.mss, hI.segs⟩
  closed _ _ _ _ hI := ⟨hI.mss, hI.segs⟩
  clear _ _ hI := ⟨hI.mss, fun _ h => (List.not_mem_nil h).elim⟩
  ooseq hI := ⟨hI.mss, hI.segs⟩

/-- It holds at the start when it holds of the SYN. -/
theorem Begun.segInv (hφ : SegRule φ) (h : Begun s)
    (hsyn : ∀ seg : TcpSeg, seg.len = 0 → seg.p = [{ payload := [] }] → seg.oversizeLeft = 0 →
      seg.tcphdr.flags.fin = false → φ seg) : SegInv φ s.core := by
  obtain ⟨t, err, ht, hr⟩ := h.opening
  obtain ⟨seg, hu, -, hlen, hp, -, hover, hfl⟩ := ht.unsent
  refine SegInv.moves hφ ⟨ht.mss.2, fun x hx => ?_⟩ (moves_tcpOutput hr)
  change x ∈ t.pcb.unsent ++ t.pcb.unacked at hx
  rw [hu, ht.unacked] at hx
  obtain rfl := List.mem_singleton.mp hx
  exact hsyn x hlen hp hover (by rw [hfl])

/-! ## The SYN -/

/-- A SYN occupies one pbuf without data or room. -/
def Bare (seg : TcpSeg) : Prop :=
  seg.tcphdr.flags.syn = true → seg.len = 0 ∧ seg.oversizeLeft = 0 ∧ seg.p.length = 1

theorem segRule_bare : SegRule Bare where
  resent {a b} h hr hs := by
    obtain ⟨hb, ho⟩ := hr
    have h1 : b.p = a.p := (congrArg TcpSeg.p hb :)
    have h2 : b.len = a.len := (congrArg TcpSeg.len hb :)
    have h3 : b.tcphdr.flags.syn = a.tcphdr.flags.syn :=
      congrArg (fun x => x.tcphdr.flags.syn) hb
    obtain ⟨g1, g2, g3⟩ := h (h3 ▸ hs)
    exact ⟨h2.trans g1, by omega, h1 ▸ g3⟩
  bump n h hpos hs := by
    have := (h hs).1
    omega
  grow {last last' ext} h hx hf hs := by
    have hsyn : last'.tcphdr.flags.syn = last.tcphdr.flags.syn := by
      rcases hx.hdr with e | e <;> rw [e]
      rfl
    obtain ⟨g1, g2, g3⟩ := h (hsyn ▸ hs)
    have hfill := hf g1
    obtain ⟨k1, k2⟩ := hfill.spare
    have hlen := hx.len (by omega)
    exact ⟨by omega, by omega, hfill.count.trans g3⟩
  data {id copy m seqno data q} _ h := by
    induction q generalizing seqno data with
    | nil => simp
    | cons seg rest ih =>
      obtain ⟨-, -, hplain, -, -, -, -, -, data', -, hrest⟩ := h
      intro x hx hs
      rcases List.mem_cons.mp hx with rfl | hx
      · unfold TcpFlags.plain at hplain
        rw [hs] at hplain
        cases hplain
      · exact ih hrest x hx hs
  setFin h _ hs := h hs
  fin _ hs := by cases hs

theorem Begun.bare (h : Begun s) : SegInv Bare s.core :=
  h.segInv segRule_bare fun _ hlen hp hover _ _ => ⟨hlen, hover, by rw [hp]; rfl⟩

end Rudp

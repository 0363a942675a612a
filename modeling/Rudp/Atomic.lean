import Rudp.Opening

/-!
# `tcp_write` is atomic

`tcp_write` fills the spare room of the last unsent segment, chains a pbuf to it and creates
segments, and commits the three at its end. Only `oversize_left` of the last segment changes before,
by the spare room of the new pbuf, which is none while bytes are left.

Results:
* `tcpWrite_atomic`: what is queued when `tcp_write` succeeds, and that nothing changes when it
  fails. What it allocates is on the queue or has been freed.
-/

namespace Rudp

variable {W : Type} {s s' : St W}

/-! ## The queue -/

/-- The data on a queue. -/
def payload (q : List TcpSeg) : List Byte := q.flatMap fun seg => bytes seg.p

/-- The pbufs on a queue. -/
def pbufs (q : List TcpSeg) : ℕ := (q.map (·.p.length)).sum

@[simp] theorem payload_nil : payload [] = [] := rfl

@[simp] theorem payload_cons (seg : TcpSeg) (q : List TcpSeg) :
    payload (seg :: q) = bytes seg.p ++ payload q := rfl

@[simp] theorem payload_append (q q' : List TcpSeg) : payload (q ++ q') = payload q ++ payload q' := by
  simp [payload]

@[simp] theorem pbufs_nil : pbufs [] = 0 := rfl

@[simp] theorem pbufs_cons (seg : TcpSeg) (q : List TcpSeg) :
    pbufs (seg :: q) = seg.p.length + pbufs q := rfl

@[simp] theorem pbufs_append (q q' : List TcpSeg) : pbufs (q ++ q') = pbufs q + pbufs q' := by
  simp [pbufs]

/-- The segments follow one another, the first at `a` and the last up to `b`. -/
def Contiguous : U32 → List TcpSeg → U32 → Prop
  | a, [], b => a = b
  | a, seg :: q, b => seg.tcphdr.seqno = a ∧ Contiguous (a + u32 seg.tcplen) q b

theorem Contiguous.append {a b c : U32} {q q' : List TcpSeg} (h : Contiguous a q b)
    (h' : Contiguous b q' c) : Contiguous a (q ++ q') c := by
  induction q generalizing a with
  | nil =>
    obtain rfl : a = b := h
    exact h'
  | cons seg q ih => exact ⟨h.1, ih h.2⟩

theorem Contiguous.of_append {a c : U32} {q q' : List TcpSeg} (h : Contiguous a (q ++ q') c) :
    ∃ b, Contiguous a q b ∧ Contiguous b q' c := by
  induction q generalizing a with
  | nil => exact ⟨a, rfl, h⟩
  | cons seg q ih =>
    obtain ⟨b, h1, h2⟩ := ih h.2
    exact ⟨b, ⟨h.1, h1⟩, h2⟩

theorem TcpFlags.finSyn_of_plain {f : TcpFlags} (h : f.plain = true) : f.finSyn = 0 := by
  unfold TcpFlags.plain at h
  unfold TcpFlags.finSyn
  simp at h
  simp [h]

theorem Contiguous.unique {a b c : U32} {q : List TcpSeg} (h : Contiguous a q c)
    (h' : Contiguous b q c) : a = b := by
  cases q with
  | nil => exact Eq.trans h (Eq.symm h')
  | cons seg q => exact h.1.symm.trans h'.1

theorem Contiguous.last {a c : U32} {q : List TcpSeg} {seg : TcpSeg}
    (h : Contiguous a (q ++ [seg]) c) : seg.tcphdr.seqno + u32 seg.tcplen = c := by
  obtain ⟨b, -, hb, hc⟩ := h.of_append
  rw [hb]
  exact hc

/-- The new segments of `tcp_write` follow one another. -/
theorem Segmented.contiguous {id : ConnectId} {copy : Bool} {mssLocal : ℕ} {seqno : U32}
    {data : List Byte} {q : List TcpSeg} (h : Segmented id copy mssLocal seqno data q) :
    Contiguous seqno q (seqno + u32 data.length) ∧ payload q = data := by
  induction q generalizing seqno data with
  | nil =>
    obtain rfl : data = [] := h
    exact ⟨(BitVec.add_zero seqno).symm, rfl⟩
  | cons seg q ih =>
    obtain ⟨-, hseq, hplain, -, hlen, -, -, -, data', rfl, hrest⟩ := h
    obtain ⟨i1, i2⟩ := ih hrest
    have htcp : seg.tcplen = seg.len := by
      unfold TcpSeg.tcplen
      rw [TcpFlags.finSyn_of_plain hplain, add_zero]
    refine ⟨⟨hseq, ?_⟩, by rw [payload_cons, i2]⟩
    rw [htcp, List.length_append, length_bytes, ← hlen, u32_add, ← BitVec.add_assoc]
    exact i1

/-- Each of them fits into a segment. -/
theorem Segmented.fits {id : ConnectId} {copy : Bool} {mssLocal : ℕ} {seqno : U32}
    {data : List Byte} {q : List TcpSeg} (h : Segmented id copy mssLocal seqno data q) :
    ∀ seg ∈ q, seg.tcphdr.flags.fin = false ∧
      seg.len + seg.optlen + seg.oversizeLeft ≤ mssLocal := by
  induction q generalizing seqno data with
  | nil => simp
  | cons seg q ih =>
    obtain ⟨-, -, hplain, hopt, -, hfit, -, -, data', -, hrest⟩ := h
    intro x hx
    rcases List.mem_cons.mp hx with rfl | hx
    · have hfin : x.tcphdr.flags.fin = false := by
        unfold TcpFlags.plain at hplain
        simp at hplain
        exact hplain.1.2
      refine ⟨hfin, ?_⟩
      unfold TcpSeg.optlen
      rw [hopt]
      simpa using hfit
    · exact ih hrest x hx

/-! ### The PSH flag -/

/-- The segment but for its PSH flag. -/
def TcpSeg.unpsh (seg : TcpSeg) : TcpSeg := { seg with tcphdr.flags.psh := false }

theorem map_modifyLast {α β : Type} (f : α → α) (g : α → β) (hg : ∀ x, g (f x) = g x)
    (q : List α) : (modifyLast f q).map g = q.map g := by
  rcases eq_nil_or_snoc q with rfl | ⟨init, x, rfl⟩
  · rfl
  · rw [modifyLast_append_singleton]
    simp [hg]

/-- The queues differ in PSH flags only. -/
def SameUnpsh (q q' : List TcpSeg) : Prop := q'.map TcpSeg.unpsh = q.map TcpSeg.unpsh

namespace SameUnpsh

variable {q q' : List TcpSeg}

theorem of_modifyLast (q : List TcpSeg) : SameUnpsh q (modifyLast TcpSeg.setPsh q) :=
  map_modifyLast TcpSeg.setPsh TcpSeg.unpsh (fun _ => rfl) q

/-- What does not depend on the flag. -/
theorem map {α : Type} (h : SameUnpsh q q') (f : TcpSeg → α) (hf : ∀ x, f x = f x.unpsh) :
    q'.map f = q.map f := by
  have e (l : List TcpSeg) : l.map f = (l.map TcpSeg.unpsh).map f := by
    rw [List.map_map]
    exact List.map_congr_left fun x _ => hf x
  rw [e q', e q, h]

theorem payload (h : SameUnpsh q q') : Rudp.payload q' = Rudp.payload q := by
  have hm := h.map (fun seg => bytes seg.p) fun _ => rfl
  unfold Rudp.payload
  rw [List.flatMap_def, List.flatMap_def, hm]

theorem pbufs (h : SameUnpsh q q') : Rudp.pbufs q' = Rudp.pbufs q := by
  unfold Rudp.pbufs
  rw [h.map (fun seg => seg.p.length) fun _ => rfl]

theorem contiguous (h : SameUnpsh q q') {a b : U32} (hc : Contiguous a q b) :
    Contiguous a q' b := by
  induction q generalizing q' a with
  | nil =>
    obtain rfl : q' = [] := List.map_eq_nil_iff.mp h
    exact hc
  | cons seg q ih =>
    cases q' with
    | nil => cases h
    | cons seg' q' =>
      obtain ⟨h1, h2⟩ := List.cons.inj h
      have e1 : seg'.tcphdr.seqno = seg.tcphdr.seqno := congrArg (fun x => x.tcphdr.seqno) h1
      have e2 : seg'.unpsh.tcplen = seg.unpsh.tcplen := congrArg TcpSeg.tcplen h1
      refine ⟨e1.trans hc.1, ih h2 ?_⟩
      show Contiguous (a + u32 seg'.unpsh.tcplen) q b
      rw [e2]
      exact hc.2

theorem forall_mem (h : SameUnpsh q q') {P : TcpSeg → Prop} (hP : ∀ x y : TcpSeg,
    y.unpsh = x.unpsh → P x → P y) (hq : ∀ x ∈ q, P x) : ∀ x ∈ q', P x := by
  induction q generalizing q' with
  | nil =>
    obtain rfl : q' = [] := List.map_eq_nil_iff.mp h
    simp
  | cons seg q ih =>
    cases q' with
    | nil => cases h
    | cons seg' q' =>
      obtain ⟨h1, h2⟩ := List.cons.inj h
      intro x hx
      rcases List.mem_cons.mp hx with rfl | hx
      · exact hP seg x h1 (hq seg (by simp))
      · exact ih h2 (fun y hy => hq y (List.mem_cons_of_mem _ hy)) x hx

end SameUnpsh

/-! ## The last segment -/

/-- The last segment of `unsent` ends at `snd_lbb`, without a FIN, and leaves room for its spare
    bytes. -/
structure TailOk (pcb : Pcb) : Prop where
  last : ∀ last ∈ pcb.unsent.getLast?, last.tcphdr.seqno + u32 last.tcplen = pcb.sndLbb ∧
    last.tcphdr.flags.fin = false ∧ last.oversizeLeft = pcb.unsentOversize ∧
    last.len + last.optlen + pcb.unsentOversize ≤ mssLocalOf pcb
  empty : pcb.unsent = [] → pcb.unsentOversize = 0

theorem TailOk.snoc {pcb : Pcb} (h : TailOk pcb) {init : List TcpSeg} {last : TcpSeg}
    (hu : pcb.unsent = init ++ [last]) : last.tcphdr.seqno + u32 last.tcplen = pcb.sndLbb ∧
      last.tcphdr.flags.fin = false ∧ last.oversizeLeft = pcb.unsentOversize ∧
      last.len + last.optlen + pcb.unsentOversize ≤ mssLocalOf pcb :=
  h.last last (by rw [hu, List.getLast?_concat]; rfl)

/-! ### Phases 1 and 2 -/

/-- The last segment behind the commit of phases 1 and 2. -/
def TailPlan.commit (t : TailPlan) (arg : List Byte) (last : TcpSeg) : TcpSeg :=
  let last := if t.oversizeUsed > 0 then commitOversize (arg.take t.oversizeUsed) last else last
  match t.concatP with
  | some concatP => commitConcat concatP last
  | none => last

/-- Phases 1 and 2 leave no spare room while bytes are left. -/
structure Planned (pcb pcb' : Pcb) (arg : List Byte) (t : TailPlan) : Prop where
  pos : t.pos ≤ arg.length
  rest : t.pos < arg.length → pcb' = pcb ∧ t.oversize = 0
  empty : pcb.unsent = [] → t.oversize = 0
  snoc {init : List TcpSeg} {last : TcpSeg} : pcb.unsent = init ++ [last] → ∃ bump,
    pcb' = { pcb with unsent := init ++ [{ last with oversizeLeft := bump }] } ∧
    t.oversizeUsed ≤ bump ∧ bump - t.oversizeUsed = t.oversize ∧
    last.len + last.optlen + t.pos + t.oversize ≤ mssLocalOf pcb

theorem mssLocalOf_lt {pcb : Pcb} (h : pcb.mss < 65536) : mssLocalOf pcb < 65536 :=
  mssLocalOf_le.trans_lt h

theorem tcpPbufPrealloc_spare {data : List Byte} {maxLength : ℕ} {more firstSeg : Bool} {q : Pbuf}
    (h : tcpPbufPrealloc s data maxLength more firstSeg = (some q, s'))
    (hl : maxLength ≤ data.length) : q.spare = 0 := by
  unfold tcpPbufPrealloc at h
  dsimp only at h
  rw [if_neg (c := data.length < maxLength ∧ _) fun hc => by omega] at h
  split at h
  · cases h
  · cases h
    exact Nat.sub_self _

theorem tcpWriteTail_planned {arg : List Byte} {copy more : Bool} {x : Option TailPlan}
    (hm : s.pcb.mss < 65536) (hroom : ∀ last ∈ s.pcb.unsent.getLast?,
      last.len + last.optlen + s.pcb.unsentOversize ≤ mssLocalOf s.pcb)
    (h : tcpWriteTail s arg copy more (mssLocalOf s.pcb) = .ok (x, s')) :
    (x = none → s'.pcb = s.pcb) ∧ ∀ t ∈ x, Planned s.pcb s'.pcb arg t := by
  have hml := mssLocalOf_lt hm
  unfold tcpWriteTail at h
  split at h
  · next hnil =>
    have hnil := List.getLast?_eq_none_iff.mp hnil
    obtain ⟨_, -, h⟩ := Run.bind_eq_ok.mp h
    cases h
    refine ⟨nofun, fun t ht => ?_⟩
    cases ht
    exact
      { pos := Nat.zero_le _
        rest := fun _ => ⟨rfl, rfl⟩
        empty := fun _ => rfl
        snoc := fun hu => absurd (hnil.symm.trans hu) (by simp) }
  · next last hlast =>
    obtain ⟨_, -, h⟩ := Run.bind_eq_ok.mp h
    obtain ⟨_, hover, h⟩ := Run.bind_eq_ok.mp h
    obtain ⟨_, -, h⟩ := Run.bind_eq_ok.mp h
    obtain ⟨init, hinit⟩ : ∃ init, s.pcb.unsent = init ++ [last] :=
      List.getLast?_eq_some_iff.mp hlast
    have hover : last.oversizeLeft = s.pcb.unsentOversize := (lwipAssert_ok hover).symm
    have hfit := hroom last hlast
    have hsnoc {i : List TcpSeg} {l : TcpSeg} (hu : s.pcb.unsent = i ++ [l]) : i = init ∧ l = last := by
      rw [hinit] at hu
      obtain ⟨h1, h2⟩ := List.append_inj' hu rfl
      exact ⟨h1.symm, (List.cons.inj h2).1.symm⟩
    have hne (he : s.pcb.unsent = []) : False := by
      rw [hinit] at he
      simp at he
    have hkeep : s.pcb =
        { s.pcb with unsent := init ++ [{ last with oversizeLeft := last.oversizeLeft }] } := by
      show s.pcb = { s.pcb with unsent := init ++ [last] }
      rw [← hinit]
    -- the subtraction does not wrap
    have hspace : u16 (mssLocalOf s.pcb - (last.len + last.optlen) + 65536 -
        min s.pcb.unsentOversize arg.length) =
          mssLocalOf s.pcb - (last.len + last.optlen) - min s.pcb.unsentOversize arg.length := by
      unfold u16
      omega
    dsimp only at h
    rw [hspace] at h
    split at h
    · next hc =>
      obtain ⟨hc1, hc2, -⟩ := hc
      have hused : min s.pcb.unsentOversize arg.length = s.pcb.unsentOversize := by omega
      rw [hused] at h hc1 hc2
      set space := mssLocalOf s.pcb - (last.len + last.optlen) - s.pcb.unsentOversize
      have hdata : ((arg.drop s.pcb.unsentOversize).take space).length =
          min space (arg.length - s.pcb.unsentOversize) := by
        rw [List.length_take, List.length_drop]
      split at h
      · split at h
        · next e =>
          cases h
          exact ⟨fun _ => (tcpPbufPrealloc_spec e).1, by simp⟩
        · next q s₁ e =>
          cases h
          refine ⟨nofun, fun t ht => ?_⟩
          cases ht
          obtain ⟨hp, hd⟩ := tcpPbufPrealloc_spec e
          obtain ⟨hpay, hspare⟩ := hd q rfl
          have hlen : q.payload.length = min space (arg.length - s.pcb.unsentOversize) := by
            rw [hpay, hdata]
          have hspare := hspare (by rw [hdata]; omega)
          rw [hdata] at hspare
          have hbump : u16 (last.oversizeLeft + q.spare) = s.pcb.unsentOversize + q.spare := by
            rw [hover]
            exact u16_of_lt (by omega)
          have hpcb : ({ s₁.pcb with unsent := modifyLast (fun seg =>
              { seg with oversizeLeft := u16 (seg.oversizeLeft + q.spare) }) s₁.pcb.unsent } : Pcb) =
              { s.pcb with unsent := init ++ [{ last with
                oversizeLeft := s.pcb.unsentOversize + q.spare }] } := by
            rw [hp, hinit, modifyLast_append_singleton, hbump]
          refine ⟨?_, fun hlt => ?_, fun he => (hne he).elim, fun hu => ?_⟩
          · show s.pcb.unsentOversize + q.payload.length ≤ arg.length
            omega
          · have hlt : s.pcb.unsentOversize + q.payload.length < arg.length := hlt
            have hzero : q.spare = 0 := tcpPbufPrealloc_spare e (by rw [hdata]; omega)
            refine ⟨hpcb.trans ?_, hzero⟩
            rw [hzero, add_zero, ← hover]
            exact hkeep.symm
          · obtain ⟨rfl, rfl⟩ := hsnoc hu
            refine ⟨_, hpcb, Nat.le_add_right _ _, Nat.add_sub_cancel_left .., ?_⟩
            show _ + (s.pcb.unsentOversize + q.payload.length) + q.spare ≤ _
            omega
      · split at h
        · cases h
          exact ⟨fun _ => rfl, by simp⟩
        · cases h
          refine ⟨nofun, fun t ht => ?_⟩
          cases ht
          refine ⟨?_, fun hlt => ⟨rfl, Nat.sub_self _⟩, fun he => (hne he).elim, fun hu => ?_⟩
          · show s.pcb.unsentOversize + ((arg.drop s.pcb.unsentOversize).take space).length ≤ _
            rw [hdata]
            omega
          · obtain ⟨rfl, rfl⟩ := hsnoc hu
            refine ⟨_, hkeep, hover.ge, by rw [hover], ?_⟩
            show _ + (s.pcb.unsentOversize + ((arg.drop s.pcb.unsentOversize).take space).length) +
              (s.pcb.unsentOversize - s.pcb.unsentOversize) ≤ _
            rw [hdata]
            omega
    · next hc =>
      cases h
      refine ⟨nofun, fun t ht => ?_⟩
      cases ht
      refine ⟨min_le_right _ _, fun hlt => ⟨rfl, ?_⟩, fun he => (hne he).elim, fun hu => ?_⟩
      · have hlt : min s.pcb.unsentOversize arg.length + 0 < arg.length := hlt
        show s.pcb.unsentOversize - min s.pcb.unsentOversize arg.length = 0
        omega
      · obtain ⟨rfl, rfl⟩ := hsnoc hu
        refine ⟨_, hkeep, ?_, ?_, ?_⟩
        · rw [hover]
          exact min_le_left _ _
        · rw [hover]
        · show _ + (min s.pcb.unsentOversize arg.length + 0) +
            (s.pcb.unsentOversize - min s.pcb.unsentOversize arg.length) ≤ _
          omega

/-! ### Phase 3 -/

/-- The chain of a new segment is one pbuf, or two. -/
theorem tcpWriteChain_length {data : List Byte} {copy more : Bool} {mssLocal oversize : ℕ}
    {firstSeg : Bool} {p : List Pbuf} {n : ℕ}
    (h : tcpWriteChain s data copy more mssLocal oversize firstSeg = .ok (some (p, n), s')) :
    p.length = 1 ∨ p.length = 2 := by
  unfold tcpWriteChain at h
  split at h
  · split at h <;> cases h
    exact .inl rfl
  · obtain ⟨_, -, h⟩ := Run.bind_eq_ok.mp h
    dsimp only at h
    split at h
    · cases h
    · split at h <;> cases h
      exact .inr rfl

/-- The room behind the last of the segments, or `oversize` when there are none. -/
def lastRoom (oversize : ℕ) (q : List TcpSeg) : ℕ :=
  (q.getLast?.map (·.oversizeLeft)).getD oversize

theorem lastRoom_snoc (oversize : ℕ) (q : List TcpSeg) (seg : TcpSeg) :
    lastRoom oversize (q ++ [seg]) = seg.oversizeLeft := by
  unfold lastRoom
  rw [List.getLast?_concat]
  rfl

theorem lastRoom_cons (oversize : ℕ) (seg : TcpSeg) (q : List TcpSeg) :
    lastRoom oversize (seg :: q) = lastRoom seg.oversizeLeft q := by
  rcases eq_nil_or_snoc q with rfl | ⟨init, x, rfl⟩
  · rfl
  · rw [← List.cons_append, lastRoom_snoc, lastRoom_snoc]

/-- The new segments are counted. -/
theorem tcpWriteQueue_counted {arg : List Byte} {copy more : Bool} {mssLocal fuel : ℕ}
    {pos oversize queuelen oversize' queuelen' : ℕ} {queue queue' : List TcpSeg}
    (hq : arg ≠ [] → queuelen ≤ TCP_SND_QUEUELEN)
    (h : tcpWriteQueue arg copy more mssLocal fuel s pos oversize queuelen queue =
      .ok (some (oversize', queuelen', queue'), s')) :
    ∃ new, queue' = queue ++ new ∧ queuelen' = queuelen + pbufs new ∧
      (arg ≠ [] → queuelen' ≤ TCP_SND_QUEUELEN) ∧ oversize' = lastRoom oversize new := by
  have e : TCP_SND_QUEUELEN = 40 := rfl
  induction fuel generalizing s pos oversize queuelen queue with
  | zero => cases h
  | succ fuel ih =>
    rw [tcpWriteQueue] at h
    split at h
    · next hpos =>
      have hq := hq (by rintro rfl; exact absurd hpos (by simp))
      obtain ⟨⟨y, s₁⟩, h₁, h⟩ := Run.bind_eq_ok.mp h
      cases y with
      | none => cases h
      | some y =>
        obtain ⟨p, n⟩ := y
        dsimp only at h
        have hp := tcpWriteChain_length h₁
        have hclen : u16 (queuelen + pbufClen p) = queuelen + p.length := by
          unfold pbufClen u8
          rw [Nat.mod_eq_of_lt (by omega)]
          exact u16_of_lt (by omega)
        rw [hclen] at h
        split at h
        · cases h
        next hle =>
        split at h
        · cases h
        · next seg s₂ hc =>
          have hseg := (tcpCreateSegment_spec hc).2 seg rfl
          obtain ⟨new, h1, h2, h3, h4⟩ := ih (fun _ => by omega) h
          refine ⟨{ seg with oversizeLeft := n } :: new, ?_, ?_, h3, ?_⟩
          · rw [h1, List.append_assoc]
            rfl
          · have hlen : seg.p.length = p.length := by rw [hseg]; rfl
            rw [h2, pbufs_cons]
            show queuelen + p.length + pbufs new = queuelen + (seg.p.length + pbufs new)
            omega
          · rw [h4, lastRoom_cons]
    · cases h
      exact ⟨[], (List.append_nil _).symm, rfl, hq, rfl⟩

/-- The turns suffice: each takes a pbuf, and `TCP_SND_QUEUELEN` ends the loop. -/
theorem tcpWriteQueue_fuel {arg : List Byte} {copy more : Bool} {mssLocal fuel n : ℕ}
    {pos oversize queuelen : ℕ} {queue : List TcpSeg} (hf : TCP_SND_QUEUELEN < queuelen + fuel)
    (hq : queuelen ≤ TCP_SND_QUEUELEN) :
    tcpWriteQueue arg copy more mssLocal (fuel + n) s pos oversize queuelen queue =
      tcpWriteQueue arg copy more mssLocal fuel s pos oversize queuelen queue := by
  have e : TCP_SND_QUEUELEN = 40 := rfl
  induction fuel generalizing s pos oversize queuelen queue with
  | zero => omega
  | succ fuel ih =>
    rw [show fuel + 1 + n = (fuel + n) + 1 by omega, tcpWriteQueue, tcpWriteQueue]
    by_cases hpos : pos < arg.length
    · rw [if_pos hpos, if_pos hpos]
      dsimp only
      cases h₁ : tcpWriteChain s ((arg.drop pos).take mssLocal) copy more mssLocal oversize
          queue.isEmpty with
      | error f => rfl
      | ok y =>
        obtain ⟨y, s₁⟩ := y
        cases y with
        | none => rfl
        | some y =>
          obtain ⟨p, m⟩ := y
          have hp := tcpWriteChain_length h₁
          have hclen : u16 (queuelen + pbufClen p) = queuelen + p.length := by
            unfold pbufClen u8
            rw [Nat.mod_eq_of_lt (by omega)]
            exact u16_of_lt (by omega)
          show (if u16 (queuelen + pbufClen p) > TCP_SND_QUEUELEN ∨ _ then _ else _) =
            (if u16 (queuelen + pbufClen p) > TCP_SND_QUEUELEN ∨ _ then _ else _)
          rw [hclen]
          by_cases hle : queuelen + p.length > TCP_SND_QUEUELEN ∨
              queuelen + p.length > TCP_SNDQUEUELEN_OVERFLOW
          · rw [if_pos hle, if_pos hle]
          · rw [if_neg hle, if_neg hle]
            cases tcpCreateSegment s₁ p {} (s₁.pcb.sndLbb + u32 pos) false with
            | mk seg s₂ =>
              cases seg with
              | none => rfl
              | some seg => exact ih (by omega) (by omega)
    · rw [if_neg hpos, if_neg hpos]

/-! ### The commit -/

theorem modifyLast_append {α : Type} (f : α → α) (l : List α) {l' : List α} (h : l' ≠ []) :
    modifyLast f (l ++ l') = l ++ modifyLast f l' := by
  rcases eq_nil_or_snoc l' with rfl | ⟨init, x, rfl⟩
  · exact absurd rfl h
  · rw [← List.append_assoc, modifyLast_append_singleton, modifyLast_append_singleton,
      List.append_assoc]

theorem tcpWriteCommit_exact {arg : List Byte} {more : Bool} {t : TailPlan} {oversize queuelen : ℕ}
    {queue : List TcpSeg} {err : Err}
    (h : tcpWriteCommit s arg more t oversize queuelen queue = .ok (err, s')) :
    err = .ok ∧
      s'.pcb = { s.pcb with
        unsentOversize := oversize, unsent := s'.pcb.unsent,
        sndLbb := s.pcb.sndLbb + u32 arg.length,
        sndBuf := u16 (s.pcb.sndBuf + 65536 - arg.length), sndQueuelen := queuelen } ∧
      (s.pcb.unsent = [] → SameUnpsh queue s'.pcb.unsent) ∧
      ∀ init last, s.pcb.unsent = init ++ [last] → ∃ new, s'.pcb.unsent = init ++ new ∧
        SameUnpsh (t.commit arg last :: queue) new := by
  obtain ⟨_, -, h⟩ := Run.bind_eq_ok.mp h
  obtain ⟨_, -, h⟩ := Run.bind_eq_ok.mp h
  set U : List TcpSeg := (match t.concatP with
    | some concatP => modifyLast (commitConcat concatP)
        (if t.oversizeUsed > 0 then
          modifyLast (commitOversize (arg.take t.oversizeUsed)) s.pcb.unsent
        else s.pcb.unsent)
    | none => if t.oversizeUsed > 0 then
          modifyLast (commitOversize (arg.take t.oversizeUsed)) s.pcb.unsent
        else s.pcb.unsent) with hU
  have hnil (hq : s.pcb.unsent = []) : U = [] := by
    rw [hU, hq]
    cases t.concatP <;> simp [modifyLast_nil]
  have hsnoc (init : List TcpSeg) (last : TcpSeg) (hq : s.pcb.unsent = init ++ [last]) :
      U = init ++ [t.commit arg last] := by
    rw [hU, hq]
    unfold TailPlan.commit
    cases t.concatP <;> dsimp only <;> split <;> simp only [modifyLast_append_singleton]
  by_cases hp : more = false ∧ (t.touched = true ∨ queue ≠ [])
  · rw [if_pos hp] at h
    cases h
    refine ⟨rfl, rfl, fun hq => ?_, fun init last hq => ?_⟩
    · show SameUnpsh queue (modifyLast TcpSeg.setPsh (U ++ queue))
      rw [hnil hq]
      exact .of_modifyLast queue
    · refine ⟨modifyLast TcpSeg.setPsh (t.commit arg last :: queue), ?_, .of_modifyLast _⟩
      show modifyLast TcpSeg.setPsh (U ++ queue) = _
      rw [hsnoc init last hq, List.append_assoc]
      exact modifyLast_append _ _ (by simp)
  · rw [if_neg hp] at h
    cases h
    refine ⟨rfl, rfl, fun hq => ?_, fun init last hq => ?_⟩
    · show SameUnpsh queue (U ++ queue)
      rw [hnil hq]
      rfl
    · refine ⟨t.commit arg last :: queue, ?_, rfl⟩
      show U ++ queue = _
      rw [hsnoc init last hq, List.append_assoc]
      rfl

/-- What the commit does to the last segment, `bump` being its `oversize_left` by then. -/
structure Grown (last last' : TcpSeg) (arg : List Byte) (t : TailPlan) : Prop where
  hdr : last'.tcphdr = last.tcphdr
  optlen : last'.optlen = last.optlen
  len : last'.len = last.len + t.pos
  room : last'.oversizeLeft = t.oversize
  count : last'.p.length = last.p.length + t.concatP.toList.length
  data : last.p ≠ [] → bytes last'.p = bytes last.p ++ arg.take t.pos

theorem Grown.of_commit {arg : List Byte} {t : TailPlan} {last : TcpSeg} {bump : ℕ}
    (hlen : last.len + t.pos < 65536) (hpos : t.oversizeUsed ≤ arg.length)
    (hover : bump - t.oversizeUsed = t.oversize)
    (hq : ∀ q ∈ t.concatP, q.payload = (arg.drop t.oversizeUsed).take q.payload.length) :
    Grown last (t.commit arg { last with oversizeLeft := bump }) arg t := by
  have hlen₁ : (arg.take t.oversizeUsed).length = t.oversizeUsed := by
    rw [List.length_take]
    omega
  have hle : t.oversizeUsed ≤ t.pos := Nat.le_add_right _ _
  -- phase 1
  have h₁ : ∃ last₁, (if t.oversizeUsed > 0 then commitOversize (arg.take t.oversizeUsed)
        { last with oversizeLeft := bump } else { last with oversizeLeft := bump }) = last₁ ∧
      last₁.tcphdr = last.tcphdr ∧ last₁.optlen = last.optlen ∧
      last₁.len = last.len + t.oversizeUsed ∧ last₁.oversizeLeft = t.oversize ∧
      last₁.p.length = last.p.length ∧
      (last.p ≠ [] → bytes last₁.p = bytes last.p ++ arg.take t.oversizeUsed) := by
    refine ⟨_, rfl, ?_⟩
    by_cases h0 : t.oversizeUsed > 0
    · rw [if_pos h0]
      refine ⟨rfl, rfl, ?_, ?_, length_modifyLast _ _, fun hp => ?_⟩
      · show u16 (last.len + (arg.take t.oversizeUsed).length) = _
        rw [hlen₁]
        exact u16_of_lt (by omega)
      · show bump - (arg.take t.oversizeUsed).length = _
        rw [hlen₁, hover]
      · exact bytes_modifyLast hp _ fun _ => rfl
    · rw [if_neg h0]
      have h0 : t.oversizeUsed = 0 := by omega
      rw [h0] at hover ⊢
      refine ⟨rfl, rfl, rfl, hover, rfl, fun _ => ?_⟩
      simp
  obtain ⟨last₁, e₁, h1, h2, h3, h4, h5, h6⟩ := h₁
  have hcommit : t.commit arg { last with oversizeLeft := bump } =
      match t.concatP with
      | some concatP => commitConcat concatP last₁
      | none => last₁ := by
    unfold TailPlan.commit
    rw [e₁]
  rw [hcommit]
  have hdata := take_pos hq
  unfold TailPlan.pos at hlen
  cases hc : t.concatP with
  | none =>
    rw [hc] at hdata
    have hp : t.pos = t.oversizeUsed := by
      unfold TailPlan.pos
      rw [hc]
      rfl
    constructor
    · exact h1
    · exact h2
    · rw [hp]
      exact h3
    · exact h4
    · rw [hc]
      exact h5
    · intro hp'
      rw [hp]
      exact h6 hp'
  | some q =>
    rw [hc] at hdata hlen
    have hp : t.pos = t.oversizeUsed + q.payload.length := by
      unfold TailPlan.pos
      rw [hc]
      rfl
    have hlen : last.len + (t.oversizeUsed + q.payload.length) < 65536 := hlen
    constructor
    · exact h1
    · exact h2
    · show u16 (last₁.len + q.payload.length) = _
      rw [h3, hp, u16_of_lt (by omega)]
      omega
    · exact h4
    · rw [hc]
      show (last₁.p ++ [q]).length = _
      rw [List.length_append, h5]
      rfl
    · intro hp'
      show bytes (last₁.p ++ [q]) = _
      rw [bytes_append, h6 hp', hdata, List.append_assoc]
      simp

theorem TailPlan.commit_count (t : TailPlan) (arg : List Byte) (last : TcpSeg) :
    (t.commit arg last).p.length = last.p.length + t.concatP.toList.length := by
  have h₁ : (if t.oversizeUsed > 0 then commitOversize (arg.take t.oversizeUsed) last
      else last).p.length = last.p.length := by
    split
    · exact length_modifyLast _ _
    · rfl
  unfold TailPlan.commit
  cases t.concatP with
  | none => exact h₁
  | some q =>
    show ((if t.oversizeUsed > 0 then commitOversize (arg.take t.oversizeUsed) last
      else last).p ++ [q]).length = _
    rw [List.length_append, h₁]
    rfl

theorem SameUnpsh.length {q q' : List TcpSeg} (h : SameUnpsh q q') : q'.length = q.length := by
  have := congrArg List.length h
  simpa using this

/-- The commit queues `concat_p` and the new segments. -/
theorem tcpWriteCommit_pbufs {arg : List Byte} {more : Bool} {t : TailPlan} {oversize queuelen : ℕ}
    {queue : List TcpSeg} {err : Err} (hnil : s.pcb.unsent = [] → t.concatP = none)
    (h : tcpWriteCommit s arg more t oversize queuelen queue = .ok (err, s')) :
    pbufs s'.pcb.unsent = pbufs s.pcb.unsent + t.concatP.toList.length + pbufs queue ∧
      s'.pcb.unsent.length = s.pcb.unsent.length + queue.length := by
  obtain ⟨-, -, h₁, h₂⟩ := tcpWriteCommit_exact h
  rcases eq_nil_or_snoc s.pcb.unsent with hu | ⟨init, last, hu⟩
  · have hs := h₁ hu
    rw [hs.pbufs, hs.length, hnil hu, hu]
    simp
  · obtain ⟨new, hu', hs⟩ := h₂ init last hu
    rw [hu, hu', pbufs_append, pbufs_append, List.length_append, List.length_append, hs.pbufs,
      hs.length, pbufs_cons, pbufs_cons, t.commit_count]
    constructor
    · simp
      omega
    · simp
      omega

/-! ### All phases -/

/-- `tcp_write` counts on room for one more pbuf. -/
theorem tcpWriteChecks_limit {len : ℕ} (h : tcpWriteChecks s len = .ok (.ok, s')) (hl : len ≠ 0) :
    s.pcb.sndQueuelen < TCP_SND_QUEUELEN := by
  by_cases h0 : s.pcb.sndQueuelen = 0
  · rw [h0]
    decide
  · exact (tcpWriteChecks_queued h hl h0).1

/-- `snd_queuelen` grows by the pbufs that are added, and stays within its limit. -/
theorem tcpWrite_counted {arg : List Byte} {copy more : Bool} {err : Err}
    (h : tcpWrite s arg copy more = .ok (err, s')) :
    s'.pcb.sndQueuelen + pbufs s.pcb.unsent = s.pcb.sndQueuelen + pbufs s'.pcb.unsent ∧
      (err = .ok ∧ arg ≠ [] → s'.pcb.sndQueuelen ≤ TCP_SND_QUEUELEN) ∧
      (¬ (err = .ok ∧ arg ≠ []) → s'.pcb.sndQueuelen = s.pcb.sndQueuelen) := by
  obtain ⟨⟨err₁, s₁⟩, h₁, h⟩ := Run.bind_eq_ok.mp h
  dsimp only at h
  rcases tcpWriteChecks_spec h₁ with ⟨herr, hp₁⟩ | ⟨rfl, rfl, -, -⟩
  · rw [if_pos herr] at h
    cases h
    rcases hp₁ with hp₁ | hp₁ <;> rw [hp₁] <;> exact ⟨rfl, fun he => absurd he.1 herr, fun _ => rfl⟩
  rw [if_neg (by simp)] at h
  obtain ⟨⟨x, s₂⟩, h₂, h⟩ := Run.bind_eq_ok.mp h
  have hs₂ : pbufs s₂.pcb.unsent = pbufs s₁.pcb.unsent ∧
      s₂.pcb.sndQueuelen = s₁.pcb.sndQueuelen := by
    rcases tcpWriteTail_spec h₂ with ⟨-, hp₂, -⟩ | ⟨init, last, bump, hu, hp₂, -⟩
    · rw [hp₂]
      exact ⟨rfl, rfl⟩
    · rw [hp₂, hu]
      refine ⟨?_, rfl⟩
      show pbufs (init ++ [{ last with oversizeLeft := bump }]) = pbufs (init ++ [last])
      rw [pbufs_append, pbufs_append]
      rfl
  have hfail {t t' : St W} {err : Err} (ht : t.pcb = s₂.pcb) (hr : tcpWriteMemerr t = .ok (err, t')) :
      t'.pcb.sndQueuelen + pbufs s₁.pcb.unsent = s₁.pcb.sndQueuelen + pbufs t'.pcb.unsent ∧
        (err = .ok ∧ arg ≠ [] → t'.pcb.sndQueuelen ≤ TCP_SND_QUEUELEN) ∧
        (¬ (err = .ok ∧ arg ≠ []) → t'.pcb.sndQueuelen = s₁.pcb.sndQueuelen) := by
    obtain ⟨herr, hp'⟩ := tcpWriteMemerr_spec hr
    rw [hp', ht]
    refine ⟨?_, fun he => absurd he.1 herr, fun _ => hs₂.2⟩
    show s₂.pcb.sndQueuelen + pbufs s₁.pcb.unsent = s₁.pcb.sndQueuelen + pbufs s₂.pcb.unsent
    omega
  cases x with
  | none => exact hfail rfl h
  | some t =>
    obtain ⟨⟨y, s₃⟩, h₃, h⟩ := Run.bind_eq_ok.mp h
    have hp₃ := tcpWriteQueue_pcb h₃
    cases y with
    | none => exact hfail hp₃ h
    | some y =>
      obtain ⟨oversize, queuelen, queue⟩ := y
      have e : TCP_SND_QUEUELEN = 40 := rfl
      have hlim (hne : arg ≠ []) := tcpWriteChecks_limit h₁ (by simpa using hne)
      have ht : t.queuelen = s₁.pcb.sndQueuelen + t.concatP.toList.length := by
        rcases tcpWriteTail_queuelen h₂ with ⟨hc, ht⟩ | ⟨hc, hne, ht⟩
        · rw [hc, ht]
          rfl
        · have := hlim hne
          obtain ⟨q, hq⟩ := Option.isSome_iff_exists.mp hc
          rw [hq, ht, u16_of_lt (by omega)]
          rfl
      have hcat : t.concatP.toList.length ≤ 1 := by cases t.concatP <;> simp
      obtain ⟨new, hnew, hlen, hle, -⟩ := tcpWriteQueue_counted
        (fun hne => by have := hlim hne; omega) h₃
      obtain rfl : queue = new := hnew
      have hpcb := (tcpWriteCommit_exact h).2.1
      have e1 : s'.pcb.sndQueuelen = queuelen := by rw [hpcb]
      have hcount := (tcpWriteCommit_pbufs (fun hu => ?_) h).1
      · rw [hp₃] at hcount
        refine ⟨by omega, fun hne => ?_, fun hn => ?_⟩
        · rw [e1]
          exact hle hne.2
        · -- nothing is written
          obtain rfl : arg = [] := by
            by_contra hne
            exact hn ⟨(tcpWriteCommit_exact h).1, hne⟩
          rw [tcpWriteQueue, if_neg (by simp)] at h₃
          cases h₃
          rcases tcpWriteTail_queuelen h₂ with ⟨-, ht⟩ | ⟨-, hne, -⟩
          · rw [e1, ht]
          · exact absurd rfl hne
      · rcases tcpWriteTail_spec h₂ with ⟨-, -, hz⟩ | ⟨init, last, bump, -, hp₂, -⟩
        · exact (hz t rfl).2
        · rw [hp₃, hp₂] at hu
          simp at hu

/-- What `tcp_write` makes: the part `old` of `unsent`, the last segment or nothing, is replaced by
    `new`, and the segments of `queue` are new. -/
structure Made (pcb pcb' : Pcb) (arg : List Byte) (copy : Bool) (t : TailPlan)
    (init old new queue : List TcpSeg) : Prop where
  unsent : pcb.unsent = init ++ old
  unsent' : pcb'.unsent = init ++ new
  last : (old = [] ∧ init = [] ∧ t.pos = 0 ∧ t.oversize = 0 ∧ SameUnpsh queue new) ∨
    ∃ last last', old = [last] ∧ Grown last last' arg t ∧
      last.len + last.optlen + t.pos + t.oversize ≤ mssLocalOf pcb ∧
      SameUnpsh (last' :: queue) new
  pos : t.pos ≤ arg.length
  data : Segmented pcb.connId copy (mssLocalOf pcb) (pcb.sndLbb + u32 t.pos) (arg.drop t.pos) queue
  room : pcb'.unsentOversize = lastRoom t.oversize queue
  sndLbb : pcb'.sndLbb = pcb.sndLbb + u32 arg.length
  mssLocal : mssLocalOf pcb' = mssLocalOf pcb

/-- What `tcp_write` leaves when it fails. -/
def Unchanged (pcb pcb' : Pcb) : Prop :=
  pcb' = { pcb with tfNagleMemErr := pcb'.tfNagleMemErr }

theorem tcpWrite_made {arg : List Byte} {copy more : Bool} {err : Err} (hm : s.pcb.mss < 65536)
    (hroom : ∀ last ∈ s.pcb.unsent.getLast?,
      last.len + last.optlen + s.pcb.unsentOversize ≤ mssLocalOf s.pcb)
    (h : tcpWrite s arg copy more = .ok (err, s')) :
    (err = .ok ∧ ∃ t init old new queue, Made s.pcb s'.pcb arg copy t init old new queue) ∨
      (err ≠ .ok ∧ Unchanged s.pcb s'.pcb) := by
  obtain ⟨⟨err₁, s₁⟩, h₁, h⟩ := Run.bind_eq_ok.mp h
  dsimp only at h
  rcases tcpWriteChecks_spec h₁ with ⟨herr, hp₁⟩ | ⟨rfl, rfl, -, -⟩
  · rw [if_pos herr] at h
    cases h
    rcases hp₁ with hp₁ | hp₁ <;> rw [hp₁] <;> exact .inr ⟨herr, rfl⟩
  rw [if_neg (by simp)] at h
  obtain ⟨⟨x, s₂⟩, h₂, h⟩ := Run.bind_eq_ok.mp h
  obtain ⟨hnone, hplan⟩ := tcpWriteTail_planned hm hroom h₂
  have hfail {t t' : St W} {err : Err} (ht : t.pcb = s₁.pcb)
      (hr : tcpWriteMemerr t = .ok (err, t')) : err ≠ .ok ∧ Unchanged s₁.pcb t'.pcb := by
    obtain ⟨herr, hp'⟩ := tcpWriteMemerr_spec hr
    rw [hp', ht]
    exact ⟨herr, rfl⟩
  cases x with
  | none => exact .inr (hfail (hnone rfl) h)
  | some t =>
    have ht := hplan t rfl
    obtain ⟨⟨y, s₃⟩, h₃, h⟩ := Run.bind_eq_ok.mp h
    obtain ⟨hp₃, hy⟩ := tcpWriteQueue_spec (mssLocalOf_lt hm) ht.pos h₃
    cases y with
    | none =>
      -- no bytes are left when phase 2 makes spare room
      by_cases hpos : t.pos < arg.length
      · exact .inr (hfail (hp₃.trans (ht.rest hpos).1) h)
      · rw [tcpWriteQueue, if_neg hpos] at h₃
        cases h₃
    | some y =>
      obtain ⟨oversize, queuelen, queue⟩ := y
      obtain ⟨new, hnew, hseg⟩ := hy _ rfl
      obtain rfl : queue = new := hnew
      have hlim (hne : arg ≠ []) : t.queuelen ≤ TCP_SND_QUEUELEN := by
        have := tcpWriteChecks_limit h₁ (by simpa using hne)
        have e : TCP_SND_QUEUELEN = 40 := rfl
        rcases tcpWriteTail_queuelen h₂ with ⟨-, ht⟩ | ⟨-, -, ht⟩
        · omega
        · rw [ht, u16_of_lt (by omega)]
          omega
      obtain ⟨new, hnew, -, -, hover⟩ := tcpWriteQueue_counted hlim h₃
      obtain rfl : queue = new := hnew
      obtain ⟨rfl, hpcb, hnil, hsnoc⟩ := tcpWriteCommit_exact h
      rw [hp₃] at hpcb hnil hsnoc
      have e2 : s'.pcb.unsentOversize = oversize := by rw [hpcb]
      have e3 : s'.pcb.sndLbb = s₂.pcb.sndLbb + u32 arg.length := by rw [hpcb]
      have e4 : mssLocalOf s'.pcb = mssLocalOf s₂.pcb := by rw [hpcb]; rfl
      left
      refine ⟨rfl, ?_⟩
      rcases tcpWriteTail_spec h₂ with ⟨hu, hp₂, hz⟩ | ⟨init, last, bump, hu, -, -, -, hz⟩
      · -- nothing is unsent
        obtain ⟨hz1, hz2⟩ := hz t rfl
        have hpos : t.pos = 0 := by
          unfold TailPlan.pos
          rw [hz1, hz2]
          rfl
        rw [hp₂] at hnil hseg e3 e4
        exact ⟨t, [], [], s'.pcb.unsent, queue,
          { unsent := hu
            unsent' := rfl
            last := .inl ⟨rfl, rfl, hpos, ht.empty hu, hnil hu⟩
            pos := ht.pos
            data := hseg
            room := e2.trans hover
            sndLbb := e3
            mssLocal := e4 }⟩
      · -- the last segment is extended
        obtain ⟨hz1, -, hz2⟩ := hz t rfl
        obtain ⟨bump, hp₂, -, hbump, hfit⟩ := ht.snoc hu
        have hml := mssLocalOf_lt hm
        rw [hp₂] at hsnoc hseg e3 e4
        obtain ⟨new, hu', hs⟩ := hsnoc init _ rfl
        exact ⟨t, init, [last], new, queue,
          { unsent := hu
            unsent' := hu'
            last := .inr ⟨last, _, rfl, .of_commit (by omega) hz1 hbump fun q hq => (hz2 q hq).2,
              hfit, hs⟩
            pos := ht.pos
            data := hseg
            room := e2.trans hover
            sndLbb := e3
            mssLocal := e4 }⟩

namespace Made

variable {pcb pcb' : Pcb} {arg : List Byte} {copy : Bool} {t : TailPlan}
  {init old new queue : List TcpSeg}

/-- The segments of `new` fit, their spare room included. -/
theorem fits (h : Made pcb pcb' arg copy t init old new queue) :
    ∀ seg ∈ new, seg.len + seg.optlen + seg.oversizeLeft ≤ mssLocalOf pcb := by
  have hcongr : ∀ x y : TcpSeg, y.unpsh = x.unpsh →
      x.len + x.optlen + x.oversizeLeft ≤ mssLocalOf pcb →
      y.len + y.optlen + y.oversizeLeft ≤ mssLocalOf pcb := by
    intro x y hxy hx
    have e1 : y.len = x.len := (congrArg TcpSeg.len hxy :)
    have e2 : y.optsMss = x.optsMss := (congrArg TcpSeg.optsMss hxy :)
    have e3 : y.oversizeLeft = x.oversizeLeft := (congrArg TcpSeg.oversizeLeft hxy :)
    unfold TcpSeg.optlen at hx ⊢
    rw [e1, e2, e3]
    exact hx
  rcases h.last with ⟨-, -, -, -, hs⟩ | ⟨last, last', -, g, hfit, hs⟩
  · exact hs.forall_mem hcongr fun seg hm => (h.data.fits seg hm).2
  · refine hs.forall_mem hcongr fun seg hm => ?_
    rcases List.mem_cons.mp hm with rfl | hm
    · rw [g.len, g.optlen, g.room]
      omega
    · exact (h.data.fits seg hm).2

/-- `unsent_oversize` is the room of the last segment. -/
theorem lastRoom (h : Made pcb pcb' arg copy t init old new queue) :
    lastRoom 0 new = pcb'.unsentOversize := by
  have hmap {q q' : List TcpSeg} (hs : SameUnpsh q q') : Rudp.lastRoom 0 q' = Rudp.lastRoom 0 q := by
    unfold Rudp.lastRoom
    rw [← List.getLast?_map, ← List.getLast?_map, hs.map TcpSeg.oversizeLeft fun _ => rfl]
  rw [h.room]
  rcases h.last with ⟨-, -, -, h0, hs⟩ | ⟨last, last', -, g, -, hs⟩
  · rw [hmap hs, h0]
  · rw [hmap hs, lastRoom_cons, g.room]

end Made

/-! ## What is allocated -/

/-- How many pbufs and segments are allocated. -/
@[ext] structure Heap where
  pbufs : ℤ
  segs : ℤ

/-- A `pbuf_alloc` that succeeds. -/
def Heap.alloc (h : Heap) : Heap := { h with pbufs := h.pbufs + 1 }

/-- `pbuf_free` on a chain that has no other owner. -/
def Heap.free (h : Heap) (p : List Pbuf) : Heap := { h with pbufs := h.pbufs - p.length }

/-- `tcp_segs_free`. -/
def Heap.segsFree (h : Heap) (q : List TcpSeg) : Heap where
  pbufs := h.pbufs - Rudp.pbufs q
  segs := h.segs - q.length

/-! ### `tcp_write` with its allocations -/

namespace Counted

/-- `tcp_create_segment`, which frees `p` on failure. -/
def tcpCreateSegment (s : St W) (h : Heap) (p : List Pbuf) (flags : TcpFlags) (seqno : U32)
    (optsMss : Bool) : Option TcpSeg × St W × Heap :=
  match Rudp.tcpCreateSegment s p flags seqno optsMss with
  | (none, s) => (none, s, h.free p)
  | (some seg, s) => (some seg, s, { h with segs := h.segs + 1 })

/-- Phases 1 and 2, where `concat_p` is the one allocation. -/
def tcpWriteTail (s : St W) (h : Heap) (arg : List Byte) (copy more : Bool) (mssLocal : ℕ) :
    Except Fault (Option TailPlan × St W × Heap) := do
  let (x, s) ← Rudp.tcpWriteTail s arg copy more mssLocal
  .ok (x, s, if (x.bind TailPlan.concatP).isSome then h.alloc else h)

/-- The chain of a new segment (tcp_out.c:553-601). -/
def tcpWriteChain (s : St W) (h : Heap) (data : List Byte) (copy more : Bool)
    (mssLocal oversize : ℕ) (firstSeg : Bool) :
    Except Fault (Option (List Pbuf × ℕ) × St W × Heap) :=
  if copy then
    match tcpPbufPrealloc s data mssLocal more firstSeg with
    | (none, s) => .ok (none, s, h)
    | (some p, s) => .ok (some ([p], p.spare), s, h.alloc)
  else do
    lwipAssert "oversize == 0" (oversize = 0)
    let (fail, s) := s.pop
    if fail then .ok (none, s, h)
    else
      let p2 : Pbuf := { payload := data }
      let h := h.alloc
      let (fail, s) := s.pop
      -- If allocation fails, we have to deallocate the data pbuf as well
      if fail then .ok (none, s, h.free [p2])
      else .ok (some ([{ payload := [] }, p2], oversize), s, h.alloc)

/-- Phase 3, with `queue` also where it jumps to `memerr`. -/
def tcpWriteQueue (arg : List Byte) (copy more : Bool) (mssLocal : ℕ) :
    ℕ → St W → Heap → (pos oversize queuelen : ℕ) → (queue : List TcpSeg) →
      Except Fault (Option (ℕ × ℕ) × List TcpSeg × St W × Heap)
  | 0, s, h, _, _, _, queue => .ok (none, queue, s, h)
  | fuel + 1, s, h, pos, oversize, queuelen, queue =>
    if pos < arg.length then do
      let data := (arg.drop pos).take mssLocal
      match ← tcpWriteChain s h data copy more mssLocal oversize queue.isEmpty with
      | (none, s, h) => .ok (none, queue, s, h)
      | (some (p, oversize), s, h) =>
        let queuelen := u16 (queuelen + pbufClen p)
        if queuelen > TCP_SND_QUEUELEN ∨ queuelen > TCP_SNDQUEUELEN_OVERFLOW then
          .ok (none, queue, s, h.free p)
        else
          match tcpCreateSegment s h p {} (s.pcb.sndLbb + u32 pos) false with
          | (none, s, h) => .ok (none, queue, s, h)
          | (some seg, s, h) =>
            tcpWriteQueue arg copy more mssLocal fuel s h (pos + data.length) oversize queuelen
              (queue ++ [{ seg with oversizeLeft := oversize }])
    else .ok (some (oversize, queuelen), queue, s, h)

/-- `memerr`, which frees `concat_p` and `queue`. -/
def tcpWriteMemerr (s : St W) (h : Heap) (concatP : Option Pbuf) (queue : List TcpSeg) :
    Except Fault (Err × St W × Heap) := do
  let (err, s) ← Rudp.tcpWriteMemerr s
  .ok (err, s, (h.free concatP.toList).segsFree queue)

/-- `tcp_write`. -/
def tcpWrite (s : St W) (h : Heap) (arg : List Byte) (copy more : Bool) :
    Except Fault (Err × St W × Heap) := do
  let mssLocal := mssLocalOf s.pcb
  let (err, s) ← tcpWriteChecks s arg.length
  if err ≠ .ok then .ok (err, s, h)
  else
    match ← tcpWriteTail s h arg copy more mssLocal with
    | (none, s, h) => tcpWriteMemerr s h none []
    | (some t, s, h) =>
      match ← tcpWriteQueue arg copy more mssLocal (TCP_SND_QUEUELEN + 1) s h t.pos t.oversize
        t.queuelen [] with
      | (none, queue, s, h) => tcpWriteMemerr s h t.concatP queue
      | (some (oversize, queuelen), queue, s, h) =>
        (fun x => (x.1, x.2, h)) <$> tcpWriteCommit s arg more t oversize queuelen queue

/-! ### It is `tcp_write` -/

theorem tcpWriteChain_erase (s : St W) (h : Heap) (data : List Byte) (copy more : Bool)
    (mssLocal oversize : ℕ) (firstSeg : Bool) :
    (fun x => (x.1, x.2.1)) <$> tcpWriteChain s h data copy more mssLocal oversize firstSeg =
      Rudp.tcpWriteChain s data copy more mssLocal oversize firstSeg := by
  unfold tcpWriteChain Rudp.tcpWriteChain
  by_cases hc : copy = true
  · rw [if_pos hc, if_pos hc]
    cases tcpPbufPrealloc s data mssLocal more firstSeg with
    | mk p s₁ => cases p <;> rfl
  · rw [if_neg hc, if_neg hc]
    unfold lwipAssert
    by_cases h0 : oversize = 0
    · rw [if_pos h0]
      generalize s.pop = x
      obtain ⟨f₁, s₁⟩ := x
      cases f₁ with
      | true => rfl
      | false =>
        show (fun x : Option (List Pbuf × ℕ) × St W × Heap => (x.1, x.2.1)) <$>
          (match s₁.pop with | (fail, s) => if fail = true then _ else _) =
            (match s₁.pop with | (fail, s) => if fail = true then _ else _)
        generalize s₁.pop = y
        obtain ⟨f₂, s₂⟩ := y
        cases f₂ <;> rfl
    · rw [if_neg h0]
      rfl

theorem tcpCreateSegment_erase (s : St W) (h : Heap) (p : List Pbuf) (flags : TcpFlags)
    (seqno : U32) (optsMss : Bool) :
    (fun x : Option TcpSeg × St W × Heap => (x.1, x.2.1)) (tcpCreateSegment s h p flags seqno optsMss) =
      Rudp.tcpCreateSegment s p flags seqno optsMss := by
  unfold tcpCreateSegment
  cases Rudp.tcpCreateSegment s p flags seqno optsMss with
  | mk seg s₁ => cases seg <;> rfl

theorem tcpWriteQueue_erase (arg : List Byte) (copy more : Bool) (mssLocal fuel : ℕ) (s : St W)
    (h : Heap) (pos oversize queuelen : ℕ) (queue : List TcpSeg) :
    (fun x : Option (ℕ × ℕ) × List TcpSeg × St W × Heap =>
      (x.1.map fun y => (y.1, y.2, x.2.1), x.2.2.1)) <$>
        tcpWriteQueue arg copy more mssLocal fuel s h pos oversize queuelen queue =
      Rudp.tcpWriteQueue arg copy more mssLocal fuel s pos oversize queuelen queue := by
  induction fuel generalizing s h pos oversize queuelen queue with
  | zero => rfl
  | succ fuel ih =>
    rw [tcpWriteQueue, Rudp.tcpWriteQueue]
    by_cases hpos : pos < arg.length
    · rw [if_pos hpos, if_pos hpos]
      dsimp only
      rw [← tcpWriteChain_erase s h]
      cases tcpWriteChain s h ((arg.drop pos).take mssLocal) copy more mssLocal oversize
          queue.isEmpty with
      | error f => rfl
      | ok y =>
        obtain ⟨y, s₁, h₁⟩ := y
        cases y with
        | none => rfl
        | some y =>
          obtain ⟨p, m⟩ := y
          show _ <$> (if u16 (queuelen + pbufClen p) > TCP_SND_QUEUELEN ∨ _ then _ else _) =
            (if u16 (queuelen + pbufClen p) > TCP_SND_QUEUELEN ∨ _ then _ else _)
          by_cases hle : u16 (queuelen + pbufClen p) > TCP_SND_QUEUELEN ∨
              u16 (queuelen + pbufClen p) > TCP_SNDQUEUELEN_OVERFLOW
          · rw [if_pos hle, if_pos hle]
            rfl
          · rw [if_neg hle, if_neg hle, ← tcpCreateSegment_erase s₁ h₁]
            cases tcpCreateSegment s₁ h₁ p {} (s₁.pcb.sndLbb + u32 pos) false with
            | mk seg x =>
              obtain ⟨s₂, h₂⟩ := x
              cases seg with
              | none => rfl
              | some seg => exact ih ..
    · rw [if_neg hpos, if_neg hpos]
      rfl

theorem tcpWrite_erase (s : St W) (h : Heap) (arg : List Byte) (copy more : Bool) :
    (fun x : Err × St W × Heap => (x.1, x.2.1)) <$> tcpWrite s h arg copy more =
      Rudp.tcpWrite s arg copy more := by
  have hmemerr (s : St W) (h : Heap) (c : Option Pbuf) (q : List TcpSeg) :
      (fun x : Err × St W × Heap => (x.1, x.2.1)) <$> tcpWriteMemerr s h c q =
        Rudp.tcpWriteMemerr s := by
    unfold tcpWriteMemerr
    cases Rudp.tcpWriteMemerr s <;> rfl
  unfold tcpWrite Rudp.tcpWrite
  cases tcpWriteChecks s arg.length with
  | error f => rfl
  | ok x =>
    obtain ⟨err, s₁⟩ := x
    show _ <$> (if err ≠ .ok then _ else _) = (if err ≠ .ok then _ else _)
    by_cases he : err ≠ .ok
    · rw [if_pos he, if_pos he]
      rfl
    · rw [if_neg he, if_neg he]
      unfold tcpWriteTail
      cases Rudp.tcpWriteTail s₁ arg copy more (mssLocalOf s.pcb) with
      | error f => rfl
      | ok x =>
        obtain ⟨t, s₂⟩ := x
        cases t with
        | none => exact hmemerr ..
        | some t =>
          show _ <$> ((tcpWriteQueue arg copy more (mssLocalOf s.pcb) (TCP_SND_QUEUELEN + 1) s₂
            (if (t.concatP).isSome then h.alloc else h) t.pos t.oversize t.queuelen []) >>= _) =
            (Rudp.tcpWriteQueue arg copy more (mssLocalOf s.pcb) (TCP_SND_QUEUELEN + 1) s₂ t.pos
              t.oversize t.queuelen [] >>= _)
          rw [← tcpWriteQueue_erase arg copy more (mssLocalOf s.pcb) (TCP_SND_QUEUELEN + 1) s₂
            (if (t.concatP).isSome then h.alloc else h)]
          cases tcpWriteQueue arg copy more (mssLocalOf s.pcb) (TCP_SND_QUEUELEN + 1) s₂
              (if (t.concatP).isSome then h.alloc else h) t.pos t.oversize t.queuelen [] with
          | error f => rfl
          | ok x =>
            obtain ⟨y, queue, s₃, h₃⟩ := x
            cases y with
            | none => exact hmemerr ..
            | some y =>
              show _ <$> (_ <$> tcpWriteCommit s₃ arg more t y.1 y.2 queue) =
                tcpWriteCommit s₃ arg more t y.1 y.2 queue
              cases tcpWriteCommit s₃ arg more t y.1 y.2 queue <;> rfl

/-! ### The loop leaves allocated what it has queued -/

theorem tcpWriteChain_heap {h h' : Heap} {data : List Byte} {copy more : Bool}
    {mssLocal oversize : ℕ} {firstSeg : Bool} {x : Option (List Pbuf × ℕ)}
    (hr : tcpWriteChain s h data copy more mssLocal oversize firstSeg = .ok (x, s', h')) :
    h'.segs = h.segs ∧ h'.pbufs = h.pbufs + ((x.map (·.1.length)).getD 0 : ℕ) := by
  unfold tcpWriteChain at hr
  split at hr
  · split at hr
    · cases hr
      exact ⟨rfl, (add_zero _).symm⟩
    · cases hr
      exact ⟨rfl, rfl⟩
  · obtain ⟨_, -, hr⟩ := Run.bind_eq_ok.mp hr
    dsimp only at hr
    split at hr
    · cases hr
      exact ⟨rfl, (add_zero _).symm⟩
    · split at hr
      · cases hr
        exact ⟨rfl, (Int.add_sub_cancel ..).trans (add_zero _).symm⟩
      · cases hr
        exact ⟨rfl, add_assoc ..⟩

theorem tcpWriteQueue_heap {arg : List Byte} {copy more : Bool} {mssLocal fuel : ℕ} {h h' : Heap}
    {pos oversize queuelen : ℕ} {queue queue' : List TcpSeg} {x : Option (ℕ × ℕ)}
    (hr : tcpWriteQueue arg copy more mssLocal fuel s h pos oversize queuelen queue =
      .ok (x, queue', s', h')) : h'.segsFree queue' = h.segsFree queue := by
  induction fuel generalizing s h pos oversize queuelen queue with
  | zero =>
    cases hr
    rfl
  | succ fuel ih =>
    rw [tcpWriteQueue] at hr
    split at hr
    · obtain ⟨⟨y, s₁, h₁⟩, hc, hr⟩ := Run.bind_eq_ok.mp hr
      obtain ⟨e1, e2⟩ := tcpWriteChain_heap hc
      cases y with
      | none =>
        have e : h₁ = h := by
          ext
          · exact e2.trans (add_zero _)
          · exact e1
        cases hr
        rw [e]
      | some y =>
        obtain ⟨p, m⟩ := y
        have e : h₁.free p = h := by
          ext
          · show h₁.pbufs - p.length = h.pbufs
            rw [e2]
            exact Int.add_sub_cancel ..
          · exact e1
        dsimp only at hr
        split at hr
        · cases hr
          rw [e]
        · split at hr
          · next hs =>
            cases hr
            unfold tcpCreateSegment at hs
            split at hs <;> cases hs
            rw [e]
          · next seg s₂ h₂ hs =>
            have hseg : seg.p = p ∧ h₂ = { h₁ with segs := h₁.segs + 1 } := by
              unfold tcpCreateSegment at hs
              split at hs
              · cases hs
              · next hs' =>
                cases hs
                rw [(tcpCreateSegment_spec hs').2 _ rfl]
                exact ⟨rfl, rfl⟩
            rw [ih hr, ← e, hseg.2]
            ext
            · show h₁.pbufs - _ = h₁.pbufs - p.length - _
              rw [pbufs_append]
              simp [pbufs, hseg.1]
              omega
            · show h₁.segs + 1 - _ = h₁.segs - _
              rw [List.length_append]
              simp
    · cases hr
      rfl

end Counted

/-! ## `tcp_write` -/

/-- What is queued when `tcp_write` succeeds. -/
structure Appended (pcb pcb' : Pcb) (arg : List Byte) : Prop where
  payload : payload pcb'.unsent = payload pcb.unsent ++ arg
  sndLbb : pcb'.sndLbb = pcb.sndLbb + u32 arg.length
  contiguous {a : U32} : Contiguous a pcb.unsent pcb.sndLbb → Contiguous a pcb'.unsent pcb'.sndLbb
  /-- The segments of `new` are new, but for the first when there was a last one. They follow one
      another, and each fits into `mss_local`. -/
  queue : ∃ init old new a, pcb.unsent = init ++ old ∧ pcb'.unsent = init ++ new ∧
    old.length ≤ 1 ∧ Contiguous a old pcb.sndLbb ∧ Contiguous a new pcb'.sndLbb ∧
    ∀ seg ∈ new, seg.len + seg.optlen ≤ mssLocalOf pcb
  queuelen : pcb'.sndQueuelen + pbufs pcb.unsent = pcb.sndQueuelen + pbufs pcb'.unsent
  limit : pcb'.sndQueuelen ≤ TCP_SND_QUEUELEN
  tailOk : TailOk pcb'

/-- What is made is appended. -/
theorem Made.appended {pcb pcb' : Pcb} {arg : List Byte} {copy : Bool} {t : TailPlan}
    {init old new queue : List TcpSeg} (h : Made pcb pcb' arg copy t init old new queue)
    (hp : ∀ seg ∈ pcb.unsent, seg.p ≠ []) (hok : TailOk pcb) (hne : arg ≠ [])
    (hlen : pcb'.sndQueuelen + pbufs pcb.unsent = pcb.sndQueuelen + pbufs pcb'.unsent)
    (hlim : pcb'.sndQueuelen ≤ TCP_SND_QUEUELEN) : Appended pcb pcb' arg := by
  obtain ⟨hcont, hpay⟩ := h.data.contiguous
  have hdrop : (arg.drop t.pos).length = arg.length - t.pos := List.length_drop
  have hend : pcb.sndLbb + u32 t.pos + u32 (arg.drop t.pos).length = pcb'.sndLbb := by
    rw [hdrop, BitVec.add_assoc, ← u32_add, Nat.add_sub_of_le h.pos, h.sndLbb]
  rw [hend] at hcont
  have hnew : ∃ a, Contiguous a old pcb.sndLbb ∧ Contiguous a new pcb'.sndLbb ∧ old.length ≤ 1 ∧
      payload new = payload old ++ arg ∧ ∀ seg ∈ new, seg.tcphdr.flags.fin = false := by
    have hfin {q : List TcpSeg} (hs : SameUnpsh q new) (hq : ∀ seg ∈ q, seg.tcphdr.flags.fin = false) :
        ∀ seg ∈ new, seg.tcphdr.flags.fin = false := by
      refine hs.forall_mem (fun x y hxy hx => ?_) hq
      have e : y.tcphdr.flags.fin = x.tcphdr.flags.fin := congrArg (fun x => x.tcphdr.flags.fin) hxy
      rw [e, hx]
    rcases h.last with ⟨rfl, -, h0, -, hs⟩ | ⟨last, last', rfl, g, -, hs⟩
    · have hlbb : pcb.sndLbb + u32 t.pos = pcb.sndLbb := by
        rw [h0]
        exact BitVec.add_zero _
      rw [hlbb] at hcont
      refine ⟨pcb.sndLbb, rfl, hs.contiguous hcont, by simp, ?_,
        hfin hs fun seg hm => (h.data.fits seg hm).1⟩
      rw [hs.payload, hpay, h0]
      rfl
    · obtain ⟨hlast, hlfin, -, -⟩ := hok.snoc h.unsent
      have hlp : last.p ≠ [] := hp last (by rw [h.unsent]; simp)
      have htcp : last'.tcplen = last.tcplen + t.pos := by
        unfold TcpSeg.tcplen
        rw [g.hdr, g.len]
        omega
      refine ⟨last.tcphdr.seqno, ⟨rfl, hlast⟩,
        hs.contiguous ⟨congrArg TcpHdr.seqno g.hdr, ?_⟩, by simp, ?_, hfin hs fun seg hm => ?_⟩
      · rw [htcp, u32_add, ← BitVec.add_assoc, hlast]
        exact hcont
      · rw [hs.payload, payload_cons, payload_cons, payload_nil, g.data hlp, hpay, List.append_nil,
          List.append_assoc, List.take_append_drop]
      · rcases List.mem_cons.mp hm with rfl | hm
        · rw [g.hdr]
          exact hlfin
        · exact (h.data.fits seg hm).1
  obtain ⟨a, hc, hc', hold, hpay', hfin⟩ := hnew
  have hne' : new ≠ [] := by
    rintro rfl
    have hnil := (List.append_eq_nil_iff.mp hpay'.symm).2
    exact hne hnil
  constructor
  · rw [h.unsent, h.unsent', payload_append, payload_append, hpay', List.append_assoc]
  · exact h.sndLbb
  · intro b hb
    rw [h.unsent] at hb
    obtain ⟨c, h1, h2⟩ := hb.of_append
    rw [h.unsent']
    obtain rfl : c = a := h2.unique hc
    exact h1.append hc'
  · refine ⟨init, old, new, a, h.unsent, h.unsent', hold, hc, hc', fun seg hseg => ?_⟩
    have := h.fits seg hseg
    omega
  · exact hlen
  · exact hlim
  · obtain ⟨i, x, hx⟩ := (eq_nil_or_snoc new).resolve_left hne'
    have hlast : pcb'.unsent.getLast? = some x := by
      rw [h.unsent', hx, ← List.append_assoc, List.getLast?_concat]
    have hmem : x ∈ new := by
      rw [hx]
      simp
    have hroom := h.lastRoom
    rw [hx, lastRoom_snoc] at hroom
    constructor
    · intro last hl
      rw [hlast] at hl
      obtain rfl := Option.mem_some.mp hl
      rw [hx] at hc'
      refine ⟨hc'.last, hfin _ hmem, hroom, ?_⟩
      rw [h.mssLocal, ← hroom]
      exact h.fits _ hmem
    · intro h0
      rw [h0] at hlast
      cases hlast

/-- `tcp_write` appends all of its argument or changes nothing. -/
theorem tcpWrite_appended {arg : List Byte} {copy more : Bool} {err : Err} (hm : s.pcb.mss < 65536)
    (hp : ∀ seg ∈ s.pcb.unsent, seg.p ≠ []) (hok : TailOk s.pcb) (hne : arg ≠ [])
    (h : tcpWrite s arg copy more = .ok (err, s')) :
    (err = .ok ∧ Appended s.pcb s'.pcb arg) ∨ (err ≠ .ok ∧ Unchanged s.pcb s'.pcb) := by
  obtain ⟨hlen, hlim⟩ := tcpWrite_counted h
  rcases tcpWrite_made hm (fun last hl => (hok.last last hl).2.2.2) h with
    ⟨rfl, t, init, old, new, queue, hmade⟩ | hfail
  · exact .inl ⟨rfl, hmade.appended hp hok hne hlen (hlim.1 ⟨rfl, hne⟩)⟩
  · exact .inr hfail

/-! ### What it leaves allocated -/

theorem tcpWriteCommit_heap {arg : List Byte} {more : Bool} {t : TailPlan} {oversize queuelen : ℕ}
    {queue : List TcpSeg} {err : Err} (h : Heap) (hnil : s.pcb.unsent = [] → t.concatP = none)
    (hr : tcpWriteCommit s arg more t oversize queuelen queue = .ok (err, s')) :
    h.segsFree s'.pcb.unsent = ((h.segsFree queue).free t.concatP.toList).segsFree s.pcb.unsent := by
  obtain ⟨h₁, h₂⟩ := tcpWriteCommit_pbufs hnil hr
  ext
  · show h.pbufs - pbufs s'.pcb.unsent =
      h.pbufs - pbufs queue - t.concatP.toList.length - pbufs s.pcb.unsent
    omega
  · show h.segs - s'.pcb.unsent.length = h.segs - queue.length - s.pcb.unsent.length
    omega

/-- What `tcp_write` has allocated is on `unsent`, and nothing when it failed. -/
theorem tcpWrite_heap {h h' : Heap} {arg : List Byte} {copy more : Bool} {err : Err}
    (hr : Counted.tcpWrite s h arg copy more = .ok (err, s', h')) :
    (err = .ok → h'.segsFree s'.pcb.unsent = h.segsFree s.pcb.unsent) ∧ (err ≠ .ok → h' = h) := by
  have hnone (h : Heap) : (h.free []).segsFree [] = h := by
    ext
    · exact (sub_zero _).trans (sub_zero _)
    · exact sub_zero _
  have hmemerr {s s' : St W} {h h' : Heap} {c : Option Pbuf} {q : List TcpSeg} {err : Err}
      (hr : Counted.tcpWriteMemerr s h c q = .ok (err, s', h')) :
      err ≠ .ok ∧ h' = (h.free c.toList).segsFree q := by
    obtain ⟨⟨err₁, s₁⟩, h₁, hr⟩ := Run.bind_eq_ok.mp hr
    obtain ⟨hne, -⟩ := tcpWriteMemerr_spec h₁
    cases hr
    exact ⟨hne, rfl⟩
  obtain ⟨⟨err₁, s₁⟩, h₁, hr⟩ := Run.bind_eq_ok.mp hr
  dsimp only at hr
  rcases tcpWriteChecks_spec h₁ with ⟨herr, -⟩ | ⟨rfl, rfl, -, -⟩
  · rw [if_pos herr] at hr
    cases hr
    exact ⟨fun he => absurd he herr, fun _ => rfl⟩
  rw [if_neg (by simp)] at hr
  obtain ⟨⟨x, s₂, h₂⟩, hx, hr⟩ := Run.bind_eq_ok.mp hr
  obtain ⟨⟨x', s₂'⟩, htail, hx⟩ := Run.bind_eq_ok.mp hx
  cases hx
  cases x with
  | none =>
    obtain ⟨hne, rfl⟩ := hmemerr hr
    exact ⟨fun he => absurd he hne, fun _ => hnone h⟩
  | some t =>
    -- `concat_p` is what phases 1 and 2 have allocated
    have hcat : (if (t.concatP).isSome then h.alloc else h).free t.concatP.toList = h := by
      cases t.concatP with
      | none =>
        ext
        · exact sub_zero _
        · rfl
      | some q =>
        ext
        · exact Int.add_sub_cancel ..
        · rfl
    change (Counted.tcpWriteQueue _ _ _ _ _ _ (if (t.concatP).isSome then h.alloc else h) _ _ _ _
      >>= _) = _ at hr
    obtain ⟨⟨y, queue, s₃, h₃⟩, hq, hr⟩ := Run.bind_eq_ok.mp hr
    have hheap := Counted.tcpWriteQueue_heap hq
    have hcomm (h : Heap) (p : List Pbuf) (q : List TcpSeg) :
        (h.free p).segsFree q = (h.segsFree q).free p := by
      ext
      · exact sub_right_comm ..
      · rfl
    have hsub (h : Heap) : h.segsFree [] = h := by
      ext
      · exact sub_zero _
      · exact sub_zero _
    rw [hsub] at hheap
    cases y with
    | none =>
      obtain ⟨hne, rfl⟩ := hmemerr hr
      refine ⟨fun he => absurd he hne, fun _ => ?_⟩
      rw [hcomm, hheap, hcat]
    | some y =>
      obtain ⟨⟨err', s₄⟩, h₄, hr⟩ := Run.map_eq_ok.mp hr
      cases hr
      have hp₃ : s₃.pcb = s₂.pcb := by
        have he := Counted.tcpWriteQueue_erase arg copy more (mssLocalOf s₁.pcb)
          (TCP_SND_QUEUELEN + 1) s₂ (if (t.concatP).isSome then h.alloc else h) t.pos t.oversize
          t.queuelen []
        rw [hq] at he
        exact tcpWriteQueue_pcb he.symm
      obtain ⟨rfl, -⟩ := tcpWriteCommit_exact h₄
      refine ⟨fun _ => ?_, fun hne => absurd rfl hne⟩
      have hu : s₃.pcb.unsent = s₂.pcb.unsent := by rw [hp₃]
      rcases tcpWriteTail_spec htail with ⟨hnil, hp₂, hz⟩ | ⟨init, last, bump, hs, hp₂, -⟩
      · rw [tcpWriteCommit_heap h' (fun _ => (hz t rfl).2) h₄, hheap, hcat, hu, hp₂]
      · have hu₂ : s₂.pcb.unsent = init ++ [{ last with oversizeLeft := bump }] := by rw [hp₂]
        have hne : s₃.pcb.unsent ≠ [] := by
          rw [hu, hu₂]
          simp
        rw [tcpWriteCommit_heap h' (fun he => absurd he hne) h₄, hheap, hcat, hu, hu₂, hs]
        ext
        · show h.pbufs - pbufs _ = h.pbufs - pbufs _
          rw [pbufs_append, pbufs_append]
          rfl
        · show h.segs - (_ : List TcpSeg).length = h.segs - (_ : List TcpSeg).length
          rw [List.length_append, List.length_append]
          rfl

/-- `tcp_write` with its allocations is `tcp_write`, and succeeds or fails as a whole: either all of
    the data is queued, in order and in segments that fit, and the pbufs are counted, or nothing has
    changed and what was allocated has been freed. -/
theorem tcpWrite_atomic {h h' : Heap} {arg : List Byte} {copy more : Bool} {err : Err}
    (hm : s.pcb.mss < 65536) (hp : ∀ seg ∈ s.pcb.unsent, seg.p ≠ []) (hok : TailOk s.pcb)
    (hne : arg ≠ []) (hr : Counted.tcpWrite s h arg copy more = .ok (err, s', h')) :
    tcpWrite s arg copy more = .ok (err, s') ∧
      (err = .ok → Appended s.pcb s'.pcb arg ∧
        h'.segsFree s'.pcb.unsent = h.segsFree s.pcb.unsent) ∧
      (err ≠ .ok → Unchanged s.pcb s'.pcb ∧ h' = h) := by
  have hw : tcpWrite s arg copy more = .ok (err, s') := by
    rw [← Counted.tcpWrite_erase s h, hr]
    rfl
  obtain ⟨hheap, hfree⟩ := tcpWrite_heap hr
  refine ⟨hw, fun he => ?_, fun he => ?_⟩
  · rcases tcpWrite_appended hm hp hok hne hw with ⟨-, ha⟩ | ⟨hn, -⟩
    · exact ⟨ha, hheap he⟩
    · exact absurd he hn
  · rcases tcpWrite_appended hm hp hok hne hw with ⟨hy, -⟩ | ⟨-, hu⟩
    · exact absurd hy he
    · exact ⟨hu, hfree he⟩

/-- The window of the server makes four bytes a segment, and the first has room for three more. The
    next allocation fails. -/
def roomy : St Unit :=
  match Run.exec (connStep idleApp) connecting [synAckOp 8, ([], .api (.write [7] true true))] with
  | .ok s => { s with fails := [true] }
  | .error _ => connecting

/-- Three bytes fit, and the fourth needs a new segment. -/
theorem tcpWrite_atomic_fails : ∃ s', Counted.tcpWrite roomy ⟨1, 1⟩ [8, 9, 10, 11] true false =
      .ok (.mem, s', ⟨1, 1⟩) ∧ roomy.pcb.unsentOversize = 3 ∧ Unchanged roomy.pcb s'.pcb := by
  have hr : Counted.tcpWrite roomy ⟨1, 1⟩ [8, 9, 10, 11] true false =
    .ok (.mem, { roomy with pcb.tfNagleMemErr := true, fails := [] }, ⟨1, 1⟩) := rfl
  have hok : TailOk roomy.pcb := by
    constructor
    · intro last hl
      cases hl
      decide
    · intro hnil
      cases hnil
  exact ⟨_, hr, rfl, ((tcpWrite_atomic (by decide) (by decide) hok (by decide) hr).2.2 nofun).1⟩

end Rudp

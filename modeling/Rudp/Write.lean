import Rudp.Queue

/-!
# What `tcp_write` puts on the queue

`tcp_write` extends the last segment of `unsent` by the first bytes of its argument and appends new
segments for the rest. `tcp_send_fin` sets the FIN of the last segment or appends one.

Results:
* `tcpWrite_spec`: the queue after `tcp_write`.
* `tcpEnqueueFlags_spec`, `tcpSendFin_spec`: the queue after the functions that queue SYN and FIN.
* `tcpConnect_spec`, `tcpListenSynAck_spec`: the SYN is queued and given to `tcp_output`.
-/

namespace Rudp

variable {W : Type} {s s' : St W}

/-! ## Lists -/

theorem modifyLast_append_singleton {α : Type} (f : α → α) (l : List α) (x : α) :
    modifyLast f (l ++ [x]) = l ++ [f x] := by
  induction l with
  | nil => rfl
  | cons y l ih =>
    cases l with
    | nil => rfl
    | cons z l => exact congrArg (y :: ·) ih

theorem modifyLast_nil {α : Type} (f : α → α) : modifyLast f [] = [] := rfl

/-- A list is empty or ends in an element. -/
theorem eq_nil_or_snoc {α : Type} (l : List α) : l = [] ∨ ∃ init last, l = init ++ [last] := by
  rcases List.eq_nil_or_concat l with h | ⟨init, last, h⟩
  · exact .inl h
  · exact .inr ⟨init, last, by rw [h, List.concat_eq_append]⟩

/-! ## What queueing leaves alone -/

/-- Queueing leaves these fields of the core alone. -/
structure SameConn (c c' : Core) : Prop where
  connId : c'.connId = c.connId
  state : c'.state = c.state
  mss : c'.mss = c.mss
  lastack : c'.lastack = c.lastack
  sndNxt : c'.sndNxt = c.sndNxt
  unacked : c'.unacked = c.unacked
  log : c'.log = c.log

theorem Queues.sameConn (h : Queues s s') : SameConn s.core s'.core where
  connId := (congrArg Pcb.connId h.1 :)
  state := (congrArg Pcb.state h.1 :)
  mss := (congrArg Pcb.mss h.1 :)
  lastack := (congrArg Pcb.lastack h.1 :)
  sndNxt := (congrArg Pcb.sndNxt h.1 :)
  unacked := (congrArg Pcb.unacked h.1 :)
  log := (congrArg (List.filter fun o : Out => !o.isCtl) h.2 :)

/-! ## New segments -/

/-- The header carries the id. -/
def TcpHdr.HasId (hdr : TcpHdr) (id : ConnectId) : Prop :=
  hdr.connid1 = id.connid1 ∧ hdr.connid2 = id.connid2

/-- The new segments of `tcp_write` for `data`, the first of them at `seqno`. Each holds at most
    `mssLocal` bytes, and all of them in one pbuf if they were copied. -/
def Segmented (id : ConnectId) (copy : Bool) (mssLocal : ℕ) :
    U32 → List Byte → List TcpSeg → Prop
  | _, data, [] => data = []
  | seqno, data, seg :: rest =>
    seg.tcphdr.HasId id ∧ seg.tcphdr.seqno = seqno ∧ seg.tcphdr.flags.plain = true ∧
      seg.optsMss = false ∧ seg.len = totLen seg.p ∧ seg.len + seg.oversizeLeft ≤ mssLocal ∧
      (0 < mssLocal → 0 < seg.len) ∧ (copy = true → ∃ q, seg.p = [q]) ∧
      ∃ data', data = bytes seg.p ++ data' ∧
        Segmented id copy mssLocal (seqno + u32 seg.len) data' rest

/-- The PSH flag of the last segment is no part of it. -/
theorem Segmented.setPsh {id : ConnectId} {copy : Bool} {mssLocal : ℕ} {seqno : U32}
    {data : List Byte} {q : List TcpSeg} (h : Segmented id copy mssLocal seqno data q) :
    Segmented id copy mssLocal seqno data (modifyLast TcpSeg.setPsh q) := by
  induction q generalizing seqno data with
  | nil => exact h
  | cons seg rest ih =>
    obtain ⟨h1, h2, h3, h4, h5, h6, h7, h8, data', hd, hrest⟩ := h
    cases rest with
    | nil => exact ⟨h1, h2, h3, h4, h5, h6, h7, h8, data', hd, hrest⟩
    | cons next rest => exact ⟨h1, h2, h3, h4, h5, h6, h7, h8, data', hd, ih hrest⟩

theorem tcpPbufPrealloc_spec {data : List Byte} {maxLength : ℕ} {more firstSeg : Bool}
    {x : Option Pbuf} (h : tcpPbufPrealloc s data maxLength more firstSeg = (x, s')) :
    s'.pcb = s.pcb ∧ ∀ q ∈ x, q.payload = data ∧
      (data.length ≤ maxLength → data.length + q.spare ≤ maxLength) := by
  unfold tcpPbufPrealloc at h
  dsimp only at h
  split at h
  · cases h
    exact ⟨rfl, by simp⟩
  · cases h
    refine ⟨rfl, fun q hq => ?_⟩
    cases hq
    refine ⟨rfl, fun hl => ?_⟩
    dsimp only
    split_ifs <;> omega

theorem tcpWriteChain_spec {data : List Byte} {copy more : Bool} {mssLocal oversize : ℕ}
    {firstSeg : Bool} {x : Option (List Pbuf × ℕ)}
    (h : tcpWriteChain s data copy more mssLocal oversize firstSeg = .ok (x, s')) :
    s'.pcb = s.pcb ∧ ∀ y ∈ x, bytes y.1 = data ∧
      (data.length ≤ mssLocal → data.length + y.2 ≤ mssLocal) ∧
      (copy = true → ∃ q, y.1 = [q]) := by
  unfold tcpWriteChain at h
  split at h
  · next hc =>
    split at h
    · next e =>
      cases h
      exact ⟨(tcpPbufPrealloc_spec e).1, by simp⟩
    · next q s₁ e =>
      cases h
      obtain ⟨hp, hq⟩ := tcpPbufPrealloc_spec e
      refine ⟨hp, fun y hy => ?_⟩
      cases hy
      obtain ⟨hd, hl⟩ := hq q rfl
      exact ⟨by simp [hd], hl, fun _ => ⟨q, rfl⟩⟩
  · next hc =>
    obtain ⟨_, ha, h⟩ := Run.bind_eq_ok.mp h
    have h0 := lwipAssert_ok ha
    simp only at h
    split at h
    · cases h
      exact ⟨rfl, by simp⟩
    · split at h
      · cases h
        exact ⟨rfl, by simp⟩
      · cases h
        refine ⟨rfl, fun y hy => ?_⟩
        cases hy
        exact ⟨by simp, fun hl => by simpa [h0] using hl, fun h => absurd h hc⟩

/-- The segment that `tcp_create_segment` makes. -/
def Pcb.newSeg (pcb : Pcb) (p : List Pbuf) (flags : TcpFlags) (seqno : U32) (optsMss : Bool) :
    TcpSeg where
  p := p
  len := u16 (totLen p)
  optsMss := optsMss
  tcphdr :=
    { connid1 := pcb.connId.connid1, connid2 := pcb.connId.connid2, seqno := seqno, ackno := 0,
      hdrlen := if optsMss then 6 else 5, flags := flags, wnd := 0 }

theorem tcpCreateSegment_spec {p : List Pbuf} {flags : TcpFlags} {seqno : U32} {optsMss : Bool}
    {x : Option TcpSeg} (h : tcpCreateSegment s p flags seqno optsMss = (x, s')) :
    s'.pcb = s.pcb ∧ ∀ seg ∈ x, seg = s.pcb.newSeg p flags seqno optsMss := by
  unfold tcpCreateSegment at h
  dsimp only at h
  split at h
  · cases h
    exact ⟨rfl, by simp⟩
  · cases h
    refine ⟨rfl, fun seg hs => ?_⟩
    cases hs
    rfl

/-- Phase 3 appends segments for the rest of the data. -/
theorem tcpWriteQueue_spec {arg : List Byte} {copy more : Bool} {mssLocal fuel : ℕ}
    (hm : mssLocal < 65536) {pos oversize queuelen : ℕ} {queue : List TcpSeg}
    {x : Option (ℕ × ℕ × List TcpSeg)} (hpos : pos ≤ arg.length)
    (h : tcpWriteQueue arg copy more mssLocal fuel s pos oversize queuelen queue = .ok (x, s')) :
    s'.pcb = s.pcb ∧ ∀ y ∈ x, ∃ new, y.2.2 = queue ++ new ∧
      Segmented s.pcb.connId copy mssLocal (s.pcb.sndLbb + u32 pos) (arg.drop pos) new := by
  induction fuel generalizing s pos oversize queuelen queue with
  | zero =>
    cases h
    exact ⟨rfl, by simp⟩
  | succ fuel ih =>
    rw [tcpWriteQueue] at h
    split at h
    · next hlt =>
      obtain ⟨⟨y, s₁⟩, h₁, h⟩ := Run.bind_eq_ok.mp h
      obtain ⟨hp₁, hy⟩ := tcpWriteChain_spec h₁
      cases y with
      | none =>
        cases h
        exact ⟨hp₁, by simp⟩
      | some y =>
        obtain ⟨p, oversize'⟩ := y
        obtain ⟨hb, hl, hq⟩ := hy _ rfl
        dsimp only at h hb hl hq
        split at h
        · cases h
          exact ⟨hp₁, by simp⟩
        split at h
        · next e =>
          cases h
          exact ⟨(tcpCreateSegment_spec e).1.trans hp₁, by simp⟩
        · next seg s₂ e =>
          obtain ⟨hp₂, hseg⟩ := tcpCreateSegment_spec e
          have hseg := hseg seg rfl
          rw [hp₁] at hseg
          have hlen : ((arg.drop pos).take mssLocal).length = min mssLocal (arg.length - pos) := by
            rw [List.length_take, List.length_drop]
          have htot : totLen p = ((arg.drop pos).take mssLocal).length := by
            rw [← length_bytes, hb]
          have hu : u16 (totLen p) = totLen p := u16_of_lt (by
            rw [htot, hlen]
            omega)
          obtain ⟨hp₃, hnew⟩ := ih (by rw [hlen]; omega) h
          refine ⟨hp₃.trans (hp₂.trans hp₁), fun y hy => ?_⟩
          obtain ⟨new, hy, hs⟩ := hnew y hy
          refine ⟨{ seg with oversizeLeft := oversize' } :: new, ?_, ?_⟩
          · rw [hy, List.append_assoc]
            rfl
          rw [hp₂, hp₁, ← List.drop_drop] at hs
          subst hseg
          refine ⟨⟨rfl, rfl⟩, rfl, rfl, rfl, hu, ?_, ?_, hq,
            (arg.drop pos).drop ((arg.drop pos).take mssLocal).length, ?_, ?_⟩
          · show u16 (totLen p) + oversize' ≤ mssLocal
            rw [hu, htot]
            exact hl (by rw [hlen]; omega)
          · intro h0
            show 0 < u16 (totLen p)
            rw [hu, htot, hlen]
            omega
          · show arg.drop pos = bytes p ++ (arg.drop pos).drop ((arg.drop pos).take mssLocal).length
            rw [hb]
            exact (List.prefix_iff_eq_append.mp (List.take_prefix _ _)).symm
          · show Segmented _ _ _ (s.pcb.sndLbb + u32 pos + u32 (u16 (totLen p))) _ new
            rw [hu, htot, BitVec.add_assoc, ← u32_add]
            exact hs
    · next hge =>
      cases h
      refine ⟨rfl, fun y hy => ?_⟩
      cases hy
      exact ⟨[], by simp, by
        show arg.drop pos = []
        rw [List.drop_eq_nil_iff]
        omega⟩

/-! ## The last segment -/

/-- `last'` is the segment `last` with the bytes `ext` behind its own. -/
structure Extends (last last' : TcpSeg) (ext : List Byte) : Prop where
  hdr : last'.tcphdr = last.tcphdr ∨ last'.tcphdr = last.setPsh.tcphdr
  optsMss : last'.optsMss = last.optsMss
  chain : last.p ≠ [] → last'.p ≠ []
  data : last.p ≠ [] → bytes last'.p = bytes last.p ++ ext
  len : last.len + ext.length ≤ 65535 → last'.len = last.len + ext.length

/-- `last'` is `last` with `ext` in its spare room. -/
structure Fills (last last' : TcpSeg) (ext : List Byte) : Prop extends Extends last last' ext where
  count : last'.p.length = last.p.length
  spare : ext.length ≤ last.oversizeLeft ∧ last'.oversizeLeft = last.oversizeLeft - ext.length

/-- `mss_local` of `tcp_write` (tcp_out.c:379-381). -/
def Core.mssLocal (c : Core) : ℕ :=
  if min c.mss (c.sndWndMax / 2) = 0 then c.mss else min c.mss (c.sndWndMax / 2)

/-- The room that phase 2 of `tcp_write` finds behind the last segment (tcp_out.c:422-458). -/
def tailSpace (pcb : Pcb) (last : TcpSeg) (len : ℕ) : ℕ :=
  u16 (mssLocalOf pcb - (last.len + last.optlen) + 65536 - min pcb.unsentOversize len)

/-- Does `tcp_write` chain a new pbuf to the last segment (tcp_out.c:472)? -/
def chains (pcb : Pcb) (len : ℕ) : Prop :=
  ∃ last ∈ pcb.unsent.getLast?, min pcb.unsentOversize len < len ∧ 0 < tailSpace pcb last len ∧
    0 < last.len

/-- `chains` on the core. -/
def Core.Chains (c : Core) (len : ℕ) : Prop :=
  ∃ last ∈ c.unsent.getLast?, min c.unsentOversize len < len ∧
    0 < u16 (c.mssLocal - (last.len + last.optlen) + 65536 - min c.unsentOversize len) ∧ 0 < last.len

instance (c : Core) (len : ℕ) : Decidable (c.Chains len) :=
  inferInstanceAs (Decidable (∃ last ∈ c.unsent.getLast?, _ ∧ _ ∧ _))

theorem Fills.refl (last : TcpSeg) : Fills last last [] where
  hdr := .inl rfl
  optsMss := rfl
  chain := id
  data _ := (List.append_nil _).symm
  len _ := rfl
  count := rfl
  spare := ⟨Nat.zero_le _, rfl⟩

theorem length_modifyLast {α : Type} (f : α → α) (l : List α) :
    (modifyLast f l).length = l.length := by
  rcases eq_nil_or_snoc l with rfl | ⟨init, x, rfl⟩
  · rfl
  · rw [modifyLast_append_singleton]
    simp

theorem bytes_modifyLast {p : List Pbuf} (hp : p ≠ []) (f : Pbuf → Pbuf) {ext : List Byte}
    (hf : ∀ q, (f q).payload = q.payload ++ ext) : bytes (modifyLast f p) = bytes p ++ ext := by
  rcases eq_nil_or_snoc p with rfl | ⟨init, x, rfl⟩
  · exact absurd rfl hp
  · rw [modifyLast_append_singleton]
    simp [hf]

theorem extends_commitOversize (last : TcpSeg) (used : List Byte) :
    Extends last (commitOversize used last) used where
  hdr := .inl rfl
  optsMss := rfl
  chain hp he := hp (List.length_eq_zero_iff.mp
    ((length_modifyLast _ _).symm.trans (congrArg List.length he)))
  data hp := bytes_modifyLast hp _ fun _ => rfl
  len hl := u16_of_lt (by omega)

theorem fills_commitOversize {last : TcpSeg} {used : List Byte}
    (hu : used.length ≤ last.oversizeLeft) : Fills last (commitOversize used last) used where
  toExtends := extends_commitOversize last used
  count := length_modifyLast _ _
  spare := ⟨hu, rfl⟩

theorem Extends.commitConcat {last last' : TcpSeg} {ext : List Byte} (h : Extends last last' ext)
    (q : Pbuf) : Extends last (commitConcat q last') (ext ++ q.payload) where
  hdr := h.hdr
  optsMss := h.optsMss
  chain _ := by simp [Rudp.commitConcat]
  data hp := by
    show bytes (last'.p ++ [q]) = _
    rw [bytes_append, h.data hp, List.append_assoc]
    simp
  len hl := by
    rw [List.length_append] at hl ⊢
    show u16 (last'.len + q.payload.length) = _
    rw [h.len (by omega), u16_of_lt (by omega)]
    omega

theorem Fills.setPsh {last last' : TcpSeg} {ext : List Byte} (h : Fills last last' ext) :
    Fills last last'.setPsh ext where
  hdr := .inr (by
    rcases h.hdr with e | e
    · show { last'.tcphdr with flags.psh := true } = { last.tcphdr with flags.psh := true }
      rw [e]
    · show { last'.tcphdr with flags.psh := true } = { last.tcphdr with flags.psh := true }
      rw [e]
      rfl)
  optsMss := h.optsMss
  chain := h.chain
  data := h.data
  len := h.len
  count := h.count
  spare := h.spare

theorem Extends.setPsh {last last' : TcpSeg} {ext : List Byte} (h : Extends last last' ext) :
    Extends last last'.setPsh ext where
  hdr := .inr (by
    rcases h.hdr with e | e
    · show { last'.tcphdr with flags.psh := true } = { last.tcphdr with flags.psh := true }
      rw [e]
    · show { last'.tcphdr with flags.psh := true } = { last.tcphdr with flags.psh := true }
      rw [e]
      rfl)
  optsMss := h.optsMss
  chain := h.chain
  data := h.data
  len := h.len

/-! ## `tcp_write` -/

/-- What `tcp_write` did to the queue `unsent`: the last segment holds `ext` in addition, and the
    rest of `arg` is in new segments. -/
structure Written (pcb pcb' : Pcb) (arg : List Byte) (copy : Bool) (ext : List Byte)
    (queue : List TcpSeg) : Prop where
  unsent : (pcb.unsent = [] ∧ ext = [] ∧ pcb'.unsent = queue) ∨
    ∃ init last last', pcb.unsent = init ++ [last] ∧ pcb'.unsent = init ++ last' :: queue ∧
      Extends last last' ext ∧ last.len + last.optlen ≤ mssLocalOf pcb ∧
      (¬ chains pcb arg.length → Fills last last' ext)
  data : ∃ rest, arg = ext ++ rest ∧
    Segmented pcb.connId copy (mssLocalOf pcb) (pcb.sndLbb + u32 ext.length) rest queue

/-- Phases 1 and 2 of `tcp_write`. -/
theorem tcpWriteTail_spec {arg : List Byte} {copy more : Bool} {x : Option TailPlan}
    (h : tcpWriteTail s arg copy more (mssLocalOf s.pcb) = .ok (x, s')) :
    (s.pcb.unsent = [] ∧ s'.pcb = s.pcb ∧ ∀ t ∈ x, t.oversizeUsed = 0 ∧ t.concatP = none) ∨
      ∃ init last bump, s.pcb.unsent = init ++ [last] ∧
        s'.pcb = { s.pcb with unsent := init ++ [{ last with oversizeLeft := bump }] } ∧
        last.len + last.optlen ≤ mssLocalOf s.pcb ∧
        (¬ chains s.pcb arg.length → bump = last.oversizeLeft) ∧
        ∀ t ∈ x, t.oversizeUsed ≤ arg.length ∧ t.oversizeUsed ≤ last.oversizeLeft ∧
          ∀ q ∈ t.concatP, chains s.pcb arg.length ∧
            q.payload = (arg.drop t.oversizeUsed).take q.payload.length := by
  unfold tcpWriteTail at h
  split at h
  · next hq =>
    obtain ⟨_, -, h⟩ := Run.bind_eq_ok.mp h
    cases h
    exact .inl ⟨List.getLast?_eq_none_iff.mp hq, rfl, fun t ht => by cases ht; exact ⟨rfl, rfl⟩⟩
  · next last hq =>
    obtain ⟨_, hfit, h⟩ := Run.bind_eq_ok.mp h
    obtain ⟨_, hover, h⟩ := Run.bind_eq_ok.mp h
    obtain ⟨_, -, h⟩ := Run.bind_eq_ok.mp h
    have hfit := lwipAssert_ok hfit
    have hover := lwipAssert_ok hover
    obtain ⟨init, hinit⟩ : ∃ init, s.pcb.unsent = init ++ [last] :=
      List.getLast?_eq_some_iff.mp hq
    have hkeep : s.pcb =
        { s.pcb with unsent := init ++ [{ last with oversizeLeft := last.oversizeLeft }] } := by
      show s.pcb = { s.pcb with unsent := init ++ [last] }
      rw [← hinit]
    have htake (n m : ℕ) (l : List Byte) :
        (l.drop n).take m = (l.drop n).take ((l.drop n).take m).length := by
      rw [List.length_take, ← List.take_eq_take_min]
    refine .inr ⟨init, last, ?_⟩
    dsimp only at h
    split at h
    · next hc =>
      have hch : chains s.pcb arg.length := ⟨last, hq, hc⟩
      split at h
      · split at h
        · next e =>
          cases h
          obtain ⟨hp, -⟩ := tcpPbufPrealloc_spec e
          exact ⟨last.oversizeLeft, hinit, hp.trans hkeep, hfit, fun _ => rfl, by simp⟩
        · next q s₁ e =>
          cases h
          obtain ⟨hp, hd⟩ := tcpPbufPrealloc_spec e
          refine ⟨u16 (last.oversizeLeft + q.spare), hinit, ?_, hfit, fun hn => absurd hch hn,
            fun t ht => ?_⟩
          · show ({ s₁.pcb with unsent := modifyLast _ s₁.pcb.unsent } : Pcb) = _
            rw [hp, hinit, modifyLast_append_singleton]
          · cases ht
            refine ⟨min_le_right _ _, by rw [hover]; exact min_le_left _ _, fun q' hq' => ?_⟩
            cases hq'
            refine ⟨hch, ?_⟩
            rw [(hd q rfl).1]
            exact htake _ _ _
      · split at h
        · cases h
          exact ⟨last.oversizeLeft, hinit, hkeep, hfit, fun _ => rfl, by simp⟩
        · cases h
          refine ⟨last.oversizeLeft, hinit, hkeep, hfit, fun _ => rfl, fun t ht => ?_⟩
          cases ht
          refine ⟨min_le_right _ _, by rw [hover]; exact min_le_left _ _, fun q' hq' => ?_⟩
          cases hq'
          exact ⟨hch, htake _ _ _⟩
    · cases h
      refine ⟨last.oversizeLeft, hinit, hkeep, hfit, fun _ => rfl, fun t ht => ?_⟩
      cases ht
      exact ⟨min_le_right _ _, by rw [hover]; exact min_le_left _ _, by simp⟩

/-- The bytes that phases 1 and 2 place. -/
theorem take_pos {arg : List Byte} {t : TailPlan}
    (hq : ∀ q ∈ t.concatP, q.payload = (arg.drop t.oversizeUsed).take q.payload.length) :
    arg.take t.pos = arg.take t.oversizeUsed ++ (t.concatP.map (·.payload)).getD [] := by
  unfold TailPlan.pos
  cases hc : t.concatP with
  | none => simp
  | some q =>
    have hq := hq q (by rw [hc]; rfl)
    show arg.take (t.oversizeUsed + q.payload.length) = arg.take t.oversizeUsed ++ q.payload
    rw [List.take_add, ← hq]

/-- The commit of phases 1 and 2 extends the last segment. -/
theorem commit_extends {arg : List Byte} {t : TailPlan} {last : TcpSeg}
    (hu : t.oversizeUsed ≤ arg.length)
    (hq : ∀ q ∈ t.concatP, q.payload = (arg.drop t.oversizeUsed).take q.payload.length)
    (init : List TcpSeg) :
    ∃ last', (match t.concatP with
      | some concatP => modifyLast (commitConcat concatP)
          (if t.oversizeUsed > 0 then
            modifyLast (commitOversize (arg.take t.oversizeUsed)) (init ++ [last])
          else init ++ [last])
      | none => if t.oversizeUsed > 0 then
            modifyLast (commitOversize (arg.take t.oversizeUsed)) (init ++ [last])
          else init ++ [last]) = init ++ [last'] ∧
      Extends last last' (arg.take t.pos) ∧
      (t.concatP = none → t.oversizeUsed ≤ last.oversizeLeft →
        Fills last last' (arg.take t.pos)) := by
  have h₁ : ∃ last₁, (if t.oversizeUsed > 0 then
      modifyLast (commitOversize (arg.take t.oversizeUsed)) (init ++ [last])
      else init ++ [last]) = init ++ [last₁] ∧ Extends last last₁ (arg.take t.oversizeUsed) ∧
        (t.oversizeUsed ≤ last.oversizeLeft → Fills last last₁ (arg.take t.oversizeUsed)) := by
    split
    · rw [modifyLast_append_singleton]
      refine ⟨_, rfl, extends_commitOversize _ _, fun hl => fills_commitOversize ?_⟩
      rw [List.length_take]
      omega
    · next h0 =>
      refine ⟨last, rfl, ?_⟩
      rw [show t.oversizeUsed = 0 by omega]
      exact ⟨(Fills.refl last).toExtends, fun _ => .refl last⟩
  obtain ⟨last₁, e₁, x₁, f₁⟩ := h₁
  rw [take_pos hq, e₁]
  cases hc : t.concatP with
  | none =>
    refine ⟨last₁, rfl, ?_, fun _ hl => ?_⟩
    · simpa using x₁
    · simpa using f₁ hl
  | some q =>
    refine ⟨commitConcat q last₁, modifyLast_append_singleton _ _ _, ?_, by simp⟩
    exact x₁.commitConcat q

theorem Segmented.setPsh_or {id : ConnectId} {copy : Bool} {mssLocal : ℕ} {seqno : U32}
    {data : List Byte} {q : List TcpSeg} {more : Bool} {t : TailPlan}
    (h : Segmented id copy mssLocal seqno data q) : ∃ q', Segmented id copy mssLocal seqno data q' ∧
      ∀ l, (if more = false ∧ (t.touched = true ∨ q ≠ []) then modifyLast TcpSeg.setPsh (l ++ q)
        else l ++ q) = l ++ q' ∨ (q' = [] ∧ q = [] ∧ (if more = false ∧ (t.touched = true ∨ q ≠ [])
          then modifyLast TcpSeg.setPsh (l ++ q) else l ++ q) = modifyLast TcpSeg.setPsh l) := by
  rcases eq_nil_or_snoc q with rfl | ⟨init, x, rfl⟩
  · refine ⟨[], h, fun l => ?_⟩
    split
    · exact .inr ⟨rfl, rfl, by rw [List.append_nil]⟩
    · exact .inl rfl
  · split_ifs
    · refine ⟨_, h.setPsh, fun l => .inl ?_⟩
      rw [← List.append_assoc, modifyLast_append_singleton, modifyLast_append_singleton,
        List.append_assoc]
    · exact ⟨_, h, fun l => .inl rfl⟩

theorem mssLocalOf_pos {pcb : Pcb} (h : 0 < pcb.mss) : 0 < mssLocalOf pcb := by
  unfold mssLocalOf
  dsimp only
  split <;> omega

theorem mssLocalOf_le {pcb : Pcb} : mssLocalOf pcb ≤ pcb.mss := by
  unfold mssLocalOf
  dsimp only
  split <;> omega

theorem tcpWriteChecks_spec {len : ℕ} {err : Err} (h : tcpWriteChecks s len = .ok (err, s')) :
    (err ≠ .ok ∧ (s'.pcb = s.pcb ∨ s'.pcb = { s.pcb with tfNagleMemErr := true })) ∨
      (err = .ok ∧ s' = s ∧ len ≤ s.pcb.sndBuf ∧ (s.pcb.state = .ESTABLISHED ∨
        s.pcb.state = .CLOSE_WAIT ∨ s.pcb.state = .SYN_SENT ∨ s.pcb.state = .SYN_RCVD)) := by
  unfold tcpWriteChecks at h
  split at h
  · cases h
    exact .inl ⟨by simp, .inl rfl⟩
  next hst =>
  have hst : s.pcb.state = .ESTABLISHED ∨ s.pcb.state = .CLOSE_WAIT ∨ s.pcb.state = .SYN_SENT ∨
      s.pcb.state = .SYN_RCVD := by
    by_contra hn
    simp only [not_or] at hn
    exact hst hn
  split_ifs at h
  · cases h
    exact .inr ⟨rfl, rfl, by omega, hst⟩
  · cases h
    exact .inl ⟨by simp, .inr rfl⟩
  · cases h
    exact .inl ⟨by simp, .inr rfl⟩
  · obtain ⟨_, -, h⟩ := Run.bind_eq_ok.mp h
    cases h
    exact .inr ⟨rfl, rfl, by omega, hst⟩
  · obtain ⟨_, -, h⟩ := Run.bind_eq_ok.mp h
    cases h
    exact .inr ⟨rfl, rfl, by omega, hst⟩

/-- `memerr`. -/
theorem tcpWriteMemerr_spec {err : Err} (h : tcpWriteMemerr s = .ok (err, s')) :
    err ≠ .ok ∧ s'.pcb = { s.pcb with tfNagleMemErr := true } := by
  obtain ⟨_, -, h⟩ := Run.bind_eq_ok.mp h
  cases h
  exact ⟨by simp, rfl⟩

/-- What the commit of `tcp_write` leaves behind. -/
structure Committed (pcb pcb' : Pcb) (arg : List Byte) : Prop where
  connId : pcb'.connId = pcb.connId
  state : pcb'.state = pcb.state
  tfFin : pcb'.tfFin = pcb.tfFin
  sndLbb : pcb'.sndLbb = pcb.sndLbb + u32 arg.length
  sndBuf : pcb'.sndBuf = u16 (pcb.sndBuf + 65536 - arg.length)

theorem tcpWriteCommit_spec {arg : List Byte} {copy more : Bool} {t : TailPlan}
    {oversize queuelen mssLocal : ℕ} {queue : List TcpSeg} {err : Err} {seqno : U32}
    {rest : List Byte}
    (h : tcpWriteCommit s arg more t oversize queuelen queue = .ok (err, s'))
    (hseg : Segmented s.pcb.connId copy mssLocal seqno rest queue) :
    err = .ok ∧ Committed s.pcb s'.pcb arg ∧
      ∃ queue', Segmented s.pcb.connId copy mssLocal seqno rest queue' ∧
        (s.pcb.unsent = [] → t.oversizeUsed = 0 ∧ t.concatP = none → s'.pcb.unsent = queue') ∧
        ∀ init last, s.pcb.unsent = init ++ [last] → t.oversizeUsed ≤ arg.length →
          (∀ q ∈ t.concatP, q.payload = (arg.drop t.oversizeUsed).take q.payload.length) →
          ∃ last', s'.pcb.unsent = init ++ last' :: queue' ∧ Extends last last' (arg.take t.pos) ∧
            (t.concatP = none → t.oversizeUsed ≤ last.oversizeLeft →
              Fills last last' (arg.take t.pos)) := by
  obtain ⟨_, -, h⟩ := Run.bind_eq_ok.mp h
  obtain ⟨_, -, h⟩ := Run.bind_eq_ok.mp h
  obtain ⟨queue', hseg', hpsh⟩ := @Segmented.setPsh_or _ _ _ _ _ _ more t hseg
  set U : List TcpSeg := (match t.concatP with
    | some concatP => modifyLast (commitConcat concatP)
        (if t.oversizeUsed > 0 then
          modifyLast (commitOversize (arg.take t.oversizeUsed)) s.pcb.unsent
        else s.pcb.unsent)
    | none => if t.oversizeUsed > 0 then
          modifyLast (commitOversize (arg.take t.oversizeUsed)) s.pcb.unsent
        else s.pcb.unsent) with hU
  have hs' : err = .ok ∧ Committed s.pcb s'.pcb arg ∧
      s'.pcb.unsent = if more = false ∧ (t.touched = true ∨ queue ≠ []) then
        modifyLast TcpSeg.setPsh (U ++ queue) else U ++ queue := by
    by_cases hp : more = false ∧ (t.touched = true ∨ queue ≠ [])
    · rw [if_pos hp] at h ⊢
      cases h
      exact ⟨rfl, ⟨rfl, rfl, rfl, rfl, rfl⟩, rfl⟩
    · rw [if_neg hp] at h ⊢
      cases h
      exact ⟨rfl, ⟨rfl, rfl, rfl, rfl, rfl⟩, rfl⟩
  obtain ⟨rfl, hc, hun⟩ := hs'
  refine ⟨rfl, hc, queue', hseg', fun hq ht => ?_, fun init last hq hu hcat => ?_⟩
  · have hU0 : U = [] := by
      rw [hU, ht.2, hq, ht.1]
      rfl
    rcases hpsh U with e | ⟨rfl, rfl, e⟩
    · rw [hun, e, hU0]
      rfl
    · rw [hun, e, hU0]
      rfl
  · obtain ⟨last', e', hext, hfill⟩ := commit_extends hu hcat init
    rw [← hq, ← hU] at e'
    rcases hpsh U with e | ⟨rfl, rfl, e⟩
    · refine ⟨last', ?_, hext, hfill⟩
      rw [hun, e, e', List.append_assoc]
      rfl
    · refine ⟨last'.setPsh, ?_, hext.setPsh, fun hn hl => (hfill hn hl).setPsh⟩
      rw [hun, e, e', modifyLast_append_singleton]

/-- What `tcp_write` does. A write that fails may leave a changed `oversize_left` behind. -/
theorem tcpWrite_spec {arg : List Byte} {copy more : Bool} {err : Err} (hm : s.pcb.mss ≤ TCP_MSS)
    (h : tcpWrite s arg copy more = .ok (err, s')) :
    (err ≠ .ok ∧ s'.pcb.tfFin = s.pcb.tfFin ∧ s'.pcb.sndLbb = s.pcb.sndLbb ∧
        s'.pcb.sndBuf = s.pcb.sndBuf ∧ (s'.pcb.unsent = s.pcb.unsent ∨
          ∃ init last bump, s.pcb.unsent = init ++ [last] ∧
            s'.pcb.unsent = init ++ [{ last with oversizeLeft := bump }] ∧
            chains s.pcb arg.length)) ∨
      (err = .ok ∧ arg.length ≤ s.pcb.sndBuf ∧ (s.pcb.state = .ESTABLISHED ∨
          s.pcb.state = .CLOSE_WAIT ∨ s.pcb.state = .SYN_SENT ∨ s.pcb.state = .SYN_RCVD) ∧
        Committed s.pcb s'.pcb arg ∧ ∃ ext queue, Written s.pcb s'.pcb arg copy ext queue) := by
  obtain ⟨⟨err₁, s₁⟩, h₁, h⟩ := Run.bind_eq_ok.mp h
  dsimp only at h
  rcases tcpWriteChecks_spec h₁ with ⟨hne, hp⟩ | ⟨rfl, rfl, hlen, hst⟩
  · rw [if_pos hne] at h
    cases h
    rcases hp with hp | hp <;> rw [hp] <;> exact .inl ⟨hne, rfl, rfl, rfl, .inl rfl⟩
  rw [if_neg (by simp)] at h
  obtain ⟨⟨x, s₂⟩, h₂, h⟩ := Run.bind_eq_ok.mp h
  have htail := tcpWriteTail_spec h₂
  -- what `memerr` finds
  have hfail : ∀ {t t' : St W} {err : Err}, t.pcb = s₂.pcb → tcpWriteMemerr t = .ok (err, t') →
      err ≠ .ok ∧ t'.pcb.tfFin = s₁.pcb.tfFin ∧ t'.pcb.sndLbb = s₁.pcb.sndLbb ∧
        t'.pcb.sndBuf = s₁.pcb.sndBuf ∧ (t'.pcb.unsent = s₁.pcb.unsent ∨
          ∃ init last bump, s₁.pcb.unsent = init ++ [last] ∧
            t'.pcb.unsent = init ++ [{ last with oversizeLeft := bump }] ∧
            chains s₁.pcb arg.length) := by
    intro t t' err ht hr
    obtain ⟨hne, hp⟩ := tcpWriteMemerr_spec hr
    rw [hp, ht]
    rcases htail with ⟨-, hp₂, -⟩ | ⟨init, last, bump, hq, hp₂, -, hb, -⟩
    · rw [hp₂]
      exact ⟨hne, rfl, rfl, rfl, .inl rfl⟩
    · rw [hp₂]
      refine ⟨hne, rfl, rfl, rfl, ?_⟩
      by_cases hc : chains s₁.pcb arg.length
      · exact .inr ⟨init, last, bump, hq, rfl, hc⟩
      · left
        show init ++ [{ last with oversizeLeft := bump }] = s₁.pcb.unsent
        rw [hb hc, hq]
  cases x with
  | none => exact .inl (hfail rfl h)
  | some t =>
    obtain ⟨⟨y, s₃⟩, h₃, h⟩ := Run.bind_eq_ok.mp h
    have hpos : t.pos ≤ arg.length := by
      rcases htail with ⟨-, -, ht⟩ | ⟨init, last, bump, -, -, -, -, ht⟩
      · obtain ⟨h0, hn⟩ := ht t rfl
        unfold TailPlan.pos
        rw [h0, hn]
        simp
      · obtain ⟨hu, -, hc⟩ := ht t rfl
        unfold TailPlan.pos
        cases e : t.concatP with
        | none => simpa using hu
        | some q =>
          have hq := congrArg List.length (hc q (by rw [e]; rfl)).2
          rw [List.length_take, List.length_drop] at hq
          show t.oversizeUsed + q.payload.length ≤ arg.length
          omega
    have hmss : mssLocalOf s₁.pcb < 65536 :=
      (mssLocalOf_le.trans hm).trans_lt (by decide)
    obtain ⟨hp₃, hy⟩ := tcpWriteQueue_spec hmss hpos h₃
    cases y with
    | none => exact .inl (hfail hp₃ h)
    | some y =>
      obtain ⟨oversize, queuelen, queue⟩ := y
      obtain ⟨new, hnew, hseg⟩ := hy _ rfl
      obtain rfl : queue = new := hnew
      have hfix : s₂.pcb.connId = s₁.pcb.connId ∧ s₂.pcb.state = s₁.pcb.state ∧
          s₂.pcb.tfFin = s₁.pcb.tfFin ∧ s₂.pcb.sndLbb = s₁.pcb.sndLbb ∧
          s₂.pcb.sndBuf = s₁.pcb.sndBuf := by
        rcases htail with ⟨-, hp₂, -⟩ | ⟨init, last, bump, -, hp₂, -, -, -⟩ <;> rw [hp₂] <;>
          exact ⟨rfl, rfl, rfl, rfl, rfl⟩
      obtain ⟨f1, f2, f3, f4, f5⟩ := hfix
      rw [← hp₃] at hseg
      obtain ⟨rfl, hcom, queue', hseg', hnil, hsnoc⟩ := tcpWriteCommit_spec h hseg
      have hcom' : Committed s₁.pcb s'.pcb arg := by
        refine ⟨hcom.connId.trans ?_, hcom.state.trans ?_, hcom.tfFin.trans ?_,
          hcom.sndLbb.trans ?_, hcom.sndBuf.trans ?_⟩ <;> rw [hp₃]
        · exact f1
        · exact f2
        · exact f3
        · rw [f4]
        · rw [f5]
      rw [hp₃, f1, f4] at hseg'
      rw [hp₃] at hnil hsnoc
      refine .inr ⟨rfl, hlen, hst, hcom', arg.take t.pos, queue', ?_, arg.drop t.pos,
        (List.take_append_drop _ _).symm, ?_⟩
      · rcases htail with ⟨hq, hp₂, ht⟩ | ⟨init, last, bump, hq, hp₂, hfit, hb, ht⟩
        · have ht := ht t rfl
          refine .inl ⟨hq, ?_, hnil (by rw [hp₂, hq]) ht⟩
          unfold TailPlan.pos
          rw [ht.1, ht.2]
          rfl
        · obtain ⟨hu, hl, hc⟩ := ht t rfl
          obtain ⟨last', hun, hext, hfill⟩ := hsnoc init { last with oversizeLeft := bump }
            (by rw [hp₂]) hu fun q hq => (hc q hq).2
          refine .inr ⟨init, last, last', hq, hun, ⟨hext.hdr, hext.optsMss, hext.chain, hext.data, hext.len⟩, hfit,
            fun hn => ?_⟩
          rw [hb hn] at hfill
          refine hfill ?_ hl
          cases e : t.concatP with
          | none => rfl
          | some q => exact absurd (hc q (by rw [e]; rfl)).1 hn
      · rw [List.length_take, min_eq_left hpos]
        exact hseg'

/-! ## The length of the queues -/

theorem tcpWriteTail_queuelen {arg : List Byte} {copy more : Bool} {mssLocal : ℕ} {t : TailPlan}
    (h : tcpWriteTail s arg copy more mssLocal = .ok (some t, s')) :
    (t.concatP = none ∧ t.queuelen = s.pcb.sndQueuelen) ∨
      (t.concatP.isSome ∧ arg ≠ [] ∧ t.queuelen = u16 (s.pcb.sndQueuelen + 1)) := by
  unfold tcpWriteTail at h
  split at h
  · obtain ⟨_, -, h⟩ := Run.bind_eq_ok.mp h
    cases h
    exact .inl ⟨rfl, rfl⟩
  · obtain ⟨_, -, h⟩ := Run.bind_eq_ok.mp h
    obtain ⟨_, -, h⟩ := Run.bind_eq_ok.mp h
    obtain ⟨_, -, h⟩ := Run.bind_eq_ok.mp h
    dsimp only at h
    split at h
    · next hc =>
      have hne : arg ≠ [] := by
        rintro rfl
        exact absurd hc.1 (by simp)
      split at h
      · split at h
        · cases h
        · next e =>
          cases h
          refine .inr ⟨rfl, hne, ?_⟩
          rw [(tcpPbufPrealloc_spec e).1]
      · split at h <;> cases h
        exact .inr ⟨rfl, hne, rfl⟩
    · cases h
      exact .inl ⟨rfl, rfl⟩

theorem tcpWriteChain_clen {data : List Byte} {copy more : Bool} {mssLocal oversize : ℕ}
    {firstSeg : Bool} {p : List Pbuf} {n : ℕ}
    (h : tcpWriteChain s data copy more mssLocal oversize firstSeg = .ok (some (p, n), s')) :
    pbufClen p ≤ 2 := by
  unfold tcpWriteChain at h
  split at h
  · split at h <;> cases h
    exact Nat.le_succ 1
  · obtain ⟨_, -, h⟩ := Run.bind_eq_ok.mp h
    dsimp only at h
    split at h
    · cases h
    · split at h <;> cases h
      exact le_rfl

theorem tcpWriteQueue_queuelen {arg : List Byte} {copy more : Bool} {mssLocal fuel : ℕ}
    {pos oversize queuelen oversize' queuelen' : ℕ} {queue queue' : List TcpSeg}
    (h0 : queuelen ≠ 0) (hl : arg ≠ [] → queuelen ≤ TCP_SND_QUEUELEN)
    (h : tcpWriteQueue arg copy more mssLocal fuel s pos oversize queuelen queue =
      .ok (some (oversize', queuelen', queue'), s')) : queuelen' ≠ 0 := by
  induction fuel generalizing s pos oversize queuelen queue with
  | zero => cases h
  | succ fuel ih =>
    rw [tcpWriteQueue] at h
    split at h
    · next hpos =>
      have hl := hl (by rintro rfl; exact absurd hpos (by simp))
      obtain ⟨⟨y, s₁⟩, h₁, h⟩ := Run.bind_eq_ok.mp h
      cases y with
      | none => cases h
      | some y =>
        obtain ⟨p, n⟩ := y
        dsimp only at h
        have hc := tcpWriteChain_clen h₁
        have e : TCP_SND_QUEUELEN = 40 := rfl
        split at h
        · cases h
        next hle =>
        split at h
        · cases h
        · refine ih ?_ (fun _ => by omega) h
          unfold u16
          omega
    · cases h
      exact h0

theorem tcpWriteQueue_pcb {arg : List Byte} {copy more : Bool} {mssLocal fuel : ℕ}
    {pos oversize queuelen : ℕ} {queue : List TcpSeg} {x : Option (ℕ × ℕ × List TcpSeg)}
    (h : tcpWriteQueue arg copy more mssLocal fuel s pos oversize queuelen queue = .ok (x, s')) :
    s'.pcb = s.pcb := by
  induction fuel generalizing s pos oversize queuelen queue with
  | zero =>
    cases h
    rfl
  | succ fuel ih =>
    rw [tcpWriteQueue] at h
    split at h
    · obtain ⟨⟨y, s₁⟩, h₁, h⟩ := Run.bind_eq_ok.mp h
      have hp := (tcpWriteChain_spec h₁).1
      cases y with
      | none =>
        cases h
        exact hp
      | some y =>
        obtain ⟨p, n⟩ := y
        dsimp only at h
        split at h
        · cases h
          exact hp
        split at h
        · next e =>
          cases h
          exact (tcpCreateSegment_spec e).1.trans hp
        · next e => exact (ih h).trans ((tcpCreateSegment_spec e).1.trans hp)
    · cases h
      rfl

/-- `tcp_write` asserts that counted pbufs are queued. -/
theorem tcpWriteChecks_queued {len : ℕ} (h : tcpWriteChecks s len = .ok (.ok, s')) (hl : len ≠ 0)
    (h0 : s.pcb.sndQueuelen ≠ 0) :
    s.pcb.sndQueuelen < TCP_SND_QUEUELEN ∧ (s.pcb.unacked ≠ [] ∨ s.pcb.unsent ≠ []) := by
  unfold tcpWriteChecks at h
  rw [if_neg hl] at h
  split at h
  · cases h
  split at h
  · cases h
  split at h
  · cases h
  next hq =>
  obtain ⟨_, ha, h⟩ := Run.bind_eq_ok.mp h
  exact ⟨by omega, lwipAssert_ok ha⟩

/-- It counts no pbuf off `snd_queuelen`. -/
theorem tcpWrite_queuelen {arg : List Byte} {copy more : Bool} {err : Err}
    (h : tcpWrite s arg copy more = .ok (err, s')) (h0 : s.pcb.sndQueuelen ≠ 0) :
    s'.pcb.sndQueuelen ≠ 0 ∧ (err = .ok → s.pcb.unacked ≠ [] ∨ s.pcb.unsent ≠ []) := by
  obtain ⟨⟨err₁, s₁⟩, h₁, h⟩ := Run.bind_eq_ok.mp h
  dsimp only at h
  rcases tcpWriteChecks_spec h₁ with ⟨hne, hp⟩ | ⟨rfl, rfl, -, -⟩
  · rw [if_pos hne] at h
    cases h
    refine ⟨?_, fun he => absurd he hne⟩
    rcases hp with hp | hp <;> rw [hp] <;> exact h0
  rw [if_neg (by simp)] at h
  obtain ⟨⟨x, s₂⟩, h₂, h⟩ := Run.bind_eq_ok.mp h
  obtain ⟨e1, e2, e3⟩ : s₂.pcb.sndQueuelen = s₁.pcb.sndQueuelen ∧
      s₂.pcb.unacked = s₁.pcb.unacked ∧ (s₁.pcb.unsent = [] → s₂.pcb.unsent = []) := by
    rcases tcpWriteTail_spec h₂ with ⟨-, hp, -⟩ | ⟨init, last, bump, hu, hp, -⟩ <;> rw [hp]
    · exact ⟨rfl, rfl, id⟩
    · exact ⟨rfl, rfl, fun he => absurd (hu.symm.trans he) (by simp)⟩
  have hfail {t t' : St W} {err : Err} (ht : t.pcb = s₂.pcb) (hr : tcpWriteMemerr t = .ok (err, t')) :
      t'.pcb.sndQueuelen ≠ 0 ∧ (err = .ok → s₁.pcb.unacked ≠ [] ∨ s₁.pcb.unsent ≠ []) := by
    obtain ⟨hne, hp⟩ := tcpWriteMemerr_spec hr
    refine ⟨?_, fun he => absurd he hne⟩
    rw [hp, ht]
    show s₂.pcb.sndQueuelen ≠ 0
    rw [e1]
    exact h0
  cases x with
  | none => exact hfail rfl h
  | some t =>
    obtain ⟨⟨y, s₃⟩, h₃, h⟩ := Run.bind_eq_ok.mp h
    have hp₃ := tcpWriteQueue_pcb h₃
    cases y with
    | none => exact hfail hp₃ h
    | some y =>
      obtain ⟨oversize, queuelen, queue⟩ := y
      have hlt (hne : arg ≠ []) := tcpWriteChecks_queued h₁ (by simpa using hne) h0
      have e : TCP_SND_QUEUELEN = 40 := rfl
      have hq : queuelen ≠ 0 := by
        refine tcpWriteQueue_queuelen ?_ (fun hne => ?_) h₃
        · rcases tcpWriteTail_queuelen h₂ with ⟨-, ht⟩ | ⟨-, hne, ht⟩ <;> rw [ht]
          · exact h0
          · have := (hlt hne).1
            unfold u16
            omega
        · have := (hlt hne).1
          rcases tcpWriteTail_queuelen h₂ with ⟨-, ht⟩ | ⟨-, -, ht⟩ <;> rw [ht]
          · omega
          · unfold u16
            omega
      obtain ⟨_, -, h⟩ := Run.bind_eq_ok.mp h
      obtain ⟨_, ha, h⟩ := Run.bind_eq_ok.mp h
      have hqueued := lwipAssert_ok ha
      dsimp only at hqueued
      clear ha
      refine ⟨?_, fun _ => ?_⟩
      · split at h <;> cases h <;> exact hq
      · by_cases hne : arg = []
        · -- nothing is queued for it, so the assertion speaks of the old queues
          subst hne
          rw [tcpWriteQueue, if_neg (by simp)] at h₃
          cases h₃
          rcases hqueued hq with ha | ha
          · exact .inl (e2 ▸ ha)
          · refine .inr fun hu => ha ?_
            rw [e3 hu]
            cases t.concatP <;> simp [modifyLast_nil]
        · exact (hlt hne).2

/-! ## SYN and FIN -/

/-- The segment that `tcp_enqueue_flags` queues. -/
def Pcb.flagSeg (pcb : Pcb) (flags : TcpFlags) : TcpSeg :=
  pcb.newSeg [{ payload := [] }] flags pcb.sndLbb flags.syn

theorem tcpEnqueueFlags_spec {flags : TcpFlags} {err : Err}
    (h : tcpEnqueueFlags s flags = .ok (err, s')) :
    (err ≠ .ok ∧ s'.pcb.tfFin = s.pcb.tfFin ∧ s'.pcb.sndLbb = s.pcb.sndLbb ∧
        s'.pcb.sndBuf = s.pcb.sndBuf ∧ s'.pcb.unsent = s.pcb.unsent) ∨
      (err = .ok ∧ s'.pcb.tfFin = (s.pcb.tfFin || flags.fin) ∧
        s'.pcb.sndLbb = s.pcb.sndLbb + 1 ∧ 0 < s.pcb.sndBuf ∧ s'.pcb.sndBuf = s.pcb.sndBuf - 1 ∧
        s'.pcb.unsent = s.pcb.unsent ++ [s.pcb.flagSeg flags]) := by
  obtain ⟨_, -, h⟩ := Run.bind_eq_ok.mp h
  dsimp only at h
  split at h
  · cases h
    exact .inl ⟨by simp, rfl, rfl, rfl, rfl⟩
  split at h
  · cases h
    exact .inl ⟨by simp, rfl, rfl, rfl, rfl⟩
  next hbuf =>
  split at h
  · cases h
    exact .inl ⟨by simp, rfl, rfl, rfl, rfl⟩
  split at h
  · next s₁ e =>
    cases h
    have hp : s₁.pcb = s.pcb := (tcpCreateSegment_spec e).1
    refine .inl ⟨by simp, ?_, ?_, ?_, ?_⟩
    · show s₁.pcb.tfFin = _
      rw [hp]
    · show s₁.pcb.sndLbb = _
      rw [hp]
    · show s₁.pcb.sndBuf = _
      rw [hp]
    · show s₁.pcb.unsent = _
      rw [hp]
  · next seg s₁ e =>
    obtain ⟨_, -, h⟩ := Run.bind_eq_ok.mp h
    cases h
    obtain ⟨hp, hseg⟩ := tcpCreateSegment_spec e
    change s₁.pcb = s.pcb at hp
    rw [hseg seg rfl]
    refine .inr ⟨rfl, ?_, ?_, by omega, ?_, ?_⟩
    · show (s₁.pcb.tfFin || flags.fin) = _
      rw [hp]
    · show s₁.pcb.sndLbb + 1 = _
      rw [hp]
    · show s₁.pcb.sndBuf - 1 = _
      rw [hp]
    · show s₁.pcb.unsent ++ _ = _
      rw [hp]
      rfl

theorem tcpEnqueueFlags_queuelen {flags : TcpFlags}
    (h : tcpEnqueueFlags s flags = .ok (.ok, s')) :
    s'.pcb.sndQueuelen = u16 (s.pcb.sndQueuelen + 1) := by
  obtain ⟨_, -, h⟩ := Run.bind_eq_ok.mp h
  dsimp only at h
  split at h
  · cases h
  split at h
  · cases h
  split at h
  · cases h
  split at h
  · cases h
  · next seg s₁ e =>
    obtain ⟨_, -, h⟩ := Run.bind_eq_ok.mp h
    cases h
    obtain ⟨hp, hseg⟩ := tcpCreateSegment_spec e
    change s₁.pcb = s.pcb at hp
    rw [hseg seg rfl]
    show u16 (s₁.pcb.sndQueuelen + 1) = _
    rw [hp]

/-- `tcp_send_fin` sets the FIN of the last unsent segment, or queues one. -/
theorem tcpSendFin_spec {err : Err} (h : tcpSendFin s = .ok (err, s')) :
    (err ≠ .ok ∧ s'.pcb.tfFin = s.pcb.tfFin ∧ s'.pcb.sndLbb = s.pcb.sndLbb ∧
        s'.pcb.sndBuf = s.pcb.sndBuf ∧ s'.pcb.unsent = s.pcb.unsent) ∨
      (err = .ok ∧ s'.pcb.tfFin = true ∧
        ((∃ init last, s.pcb.unsent = init ++ [last] ∧ last.tcphdr.flags.plain = true ∧
            s'.pcb.unsent = init ++ [last.setFin] ∧ s'.pcb.sndLbb = s.pcb.sndLbb ∧
            s'.pcb.sndBuf = s.pcb.sndBuf) ∨
          (s'.pcb.unsent = s.pcb.unsent ++ [s.pcb.flagSeg { fin := true }] ∧
            s'.pcb.sndLbb = s.pcb.sndLbb + 1 ∧ 0 < s.pcb.sndBuf ∧
            s'.pcb.sndBuf = s.pcb.sndBuf - 1))) := by
  have henq : ∀ {err : Err}, tcpEnqueueFlags s { fin := true } = .ok (err, s') →
      (err ≠ .ok ∧ s'.pcb.tfFin = s.pcb.tfFin ∧ s'.pcb.sndLbb = s.pcb.sndLbb ∧
        s'.pcb.sndBuf = s.pcb.sndBuf ∧ s'.pcb.unsent = s.pcb.unsent) ∨
      (err = .ok ∧ s'.pcb.tfFin = true ∧
        s'.pcb.unsent = s.pcb.unsent ++ [s.pcb.flagSeg { fin := true }] ∧
        s'.pcb.sndLbb = s.pcb.sndLbb + 1 ∧ 0 < s.pcb.sndBuf ∧
        s'.pcb.sndBuf = s.pcb.sndBuf - 1) := by
    intro err h
    rcases tcpEnqueueFlags_spec h with h | ⟨h1, h2, h3, h4, h5, h6⟩
    · exact .inl h
    · exact .inr ⟨h1, by rw [h2]; simp, h6, h3, h4, h5⟩
  unfold tcpSendFin at h
  split at h
  · next last hq =>
    obtain ⟨init, hinit⟩ : ∃ init, s.pcb.unsent = init ++ [last] :=
      List.getLast?_eq_some_iff.mp hq
    split at h
    · next hp =>
      cases h
      refine .inr ⟨rfl, rfl, .inl ⟨init, last, hinit, hp, ?_, rfl, rfl⟩⟩
      show modifyLast TcpSeg.setFin s.pcb.unsent = _
      rw [hinit, modifyLast_append_singleton]
    · rcases henq h with h | ⟨h1, h2, h3⟩
      · exact .inl h
      · exact .inr ⟨h1, h2, .inr h3⟩
  · rcases henq h with h | ⟨h1, h2, h3⟩
    · exact .inl h
    · exact .inr ⟨h1, h2, .inr h3⟩

/-- The pcb for which `tcp_connect` queues the SYN. -/
def Pcb.connecting (pcb : Pcb) (port : ℕ) (iss : U32) : Pcb :=
  { pcb with
    localPort := port
    connId := { connid1 := u32 port, connid2 := 0 }
    rcvNxt := 0
    sndNxt := iss
    lastack := iss - 1
    sndLbb := iss - 1
    rcvWnd := TCP_WND
    rcvAnnWnd := TCP_WND
    rcvAnnRightEdge := 0
    sndWnd := TCP_WND
    mss := TCP_MSS
    cwnd := 1
    ssthresh := TCP_WND }

theorem tcpConnectSyn_spec {newPort : ℕ} {iss : U32} {err : Err}
    (h : tcpConnectSyn s newPort iss = .ok (err, s')) :
    s.pcb.state = .CLOSED ∧
      ((err ≠ .ok ∧ s'.trace = s.trace ∧ s'.pcb = s.pcb) ∨
        ∃ port, port ≠ 0 ∧ ∃ s₁ : St W, tcpEnqueueFlags
            { s with pcb := s.pcb.connecting port iss } { syn := true } = .ok (err, s₁) ∧
          s'.trace = s₁.trace ∧
          s'.pcb = if err = .ok then { s₁.pcb with state := .SYN_SENT } else s₁.pcb) := by
  obtain ⟨_, ha, h⟩ := Run.bind_eq_ok.mp h
  refine ⟨lwipAssert_ok ha, ?_⟩
  generalize (if s.pcb.localPort = 0 then newPort else s.pcb.localPort) = port at h
  dsimp only at h
  split at h
  · cases h
    exact .inl ⟨by simp, rfl, rfl⟩
  · next hport =>
    obtain ⟨⟨err', s₁⟩, h₁, h⟩ := Run.bind_eq_ok.mp h
    right
    dsimp only at h
    split at h
    · next hok =>
      cases h
      refine ⟨port, hport, s₁, ?_, rfl, by rw [if_pos rfl]⟩
      rw [hok] at h₁
      exact h₁
    · next hok =>
      cases h
      exact ⟨port, hport, _, h₁, rfl, by rw [if_neg hok]⟩

/-- `tcp_connect` puts the pcb on the active list, in `SYN_SENT`, if the SYN can be queued. -/
theorem rcvView_tcpConnect {newPort : ℕ} {iss : U32} {err : Err}
    (h : tcpConnect s newPort iss = .ok (err, s')) : s'.rcvView = s.rcvView ∨ ∃ port,
      s'.rcvView = ({ s with pcb := s.pcb.connecting port iss } : St W).rcvView ∨
      s'.rcvView = ({ s with
        pcb := { s.pcb.connecting port iss with state := .SYN_SENT }
        list := .active, changed := true } : St W).rcvView := by
  obtain ⟨⟨err₁, s₁⟩, h₁, h⟩ := Run.bind_eq_ok.mp h
  have hv : s'.rcvView = s₁.rcvView := by
    dsimp only at h
    split at h
    · obtain ⟨⟨err₂, s₂⟩, h₂, h⟩ := Run.bind_eq_ok.mp h
      cases h
      exact rcvView_tcpOutput h₂
    · cases h
      rfl
  rw [hv]
  obtain ⟨_, -, h₁⟩ := Run.bind_eq_ok.mp h₁
  generalize (if s.pcb.localPort = 0 then newPort else s.pcb.localPort) = port at h₁
  dsimp only at h₁
  split at h₁
  · cases h₁
    exact .inl rfl
  · obtain ⟨⟨err₂, s₂⟩, h₂, h₁⟩ := Run.bind_eq_ok.mp h₁
    have hv₂ := rcvView_tcpEnqueueFlags h₂
    refine .inr ⟨port, ?_⟩
    dsimp only at h₁
    split at h₁
    · cases h₁
      exact .inr (congrArg (fun v =>
        { v with state := .SYN_SENT, list := .active, changed := true }) hv₂)
    · cases h₁
      exact .inl hv₂

/-- `tcp_connect` queues the SYN and gives it to `tcp_output`. -/
theorem tcpConnect_spec {newPort : ℕ} {iss : U32} (h : tcpConnect s newPort iss = .ok (.ok, s')) :
    ∃ port s₁ t err, tcpEnqueueFlags { s with pcb := s.pcb.connecting port iss } { syn := true } =
        .ok (.ok, s₁) ∧
      t.trace = s₁.trace ∧ t.pcb = { s₁.pcb with state := .SYN_SENT } ∧ tcpOutput t = .ok (err, s') := by
  obtain ⟨⟨err, t⟩, h₁, h⟩ := Run.bind_eq_ok.mp h
  dsimp only at h
  split at h
  · next hok =>
    rw [hok] at h₁
    obtain ⟨⟨err', s₂⟩, h₂, h⟩ := Run.bind_eq_ok.mp h
    cases h
    obtain ⟨-, ⟨hne, -⟩ | ⟨port, -, s₁, h₃, ht, hp⟩⟩ := tcpConnectSyn_spec h₁
    · exact absurd rfl hne
    · rw [if_pos rfl] at hp
      exact ⟨port, s₁, t, err', h₃, ht, hp, h₂⟩
  · next hne =>
    cases h
    exact absurd rfl hne

/-- The SYN-ACK is queued and given to `tcp_output`; otherwise the pcb is freed. -/
theorem tcpListenSynAck_spec {err : Err} (h : tcpListenSynAck s = .ok (err, s'))
    (hf : s'.freed = false) : ∃ t, tcpEnqueueFlags s { syn := true, ack := true } = .ok (.ok, t) ∧
      tcpOutput t = .ok (err, s') := by
  obtain ⟨⟨err', t⟩, h₁, h⟩ := Run.bind_eq_ok.mp h
  dsimp only at h
  split at h
  · obtain ⟨s₁, h₂, h⟩ := Run.bind_eq_ok.mp h
    cases h
    obtain ⟨pcb, changed, outs, hv, -⟩ := rcvView_tcpAbandon h₂
    have hfreed : s'.freed = true := congrArg (fun v => v.freed) hv
    rw [hfreed] at hf
    cases hf
  · next hok =>
    have hok' : err' = .ok := by simpa using hok
    rw [hok'] at h₁
    exact ⟨t, h₁, h⟩

/-- The pcb that `tcp_listen_input` makes for a SYN. -/
theorem tcpListenPcb_spec (h : Allocated s) (seg : InSegment) (localPort : ℕ) (serverId : U32) :
    (tcpListenPcb s seg localPort serverId).trace = [] ∧ ∃ prio iss ticks mss, 0 < mss ∧
      mss ≤ TCP_MSS ∧ (tcpListenPcb s seg localPort serverId).pcb =
        { tcpAllocPcb prio iss ticks with
          localPort := localPort
          connId := { connid1 := seg.tcphdr.connid1, connid2 := serverId }
          state := .SYN_RCVD
          rcvNxt := seg.seqno + 1
          rcvAnnRightEdge := seg.seqno + 1
          sndWl1 := seg.seqno - 1
          sndWnd := seg.tcphdr.wnd
          sndWndMax := seg.tcphdr.wnd
          ssthresh := seg.tcphdr.wnd
          mss := mss } := by
  obtain ⟨⟨prio, iss, ticks, port, hp⟩, ht⟩ := h
  refine ⟨ht, prio, iss, ticks, tcpParseMss seg.options.length seg.options TCP_MSS, ?_⟩
  have hm : 0 < tcpParseMss seg.options.length seg.options TCP_MSS ∧
      tcpParseMss seg.options.length seg.options TCP_MSS ≤ TCP_MSS := by
    rcases KeptSteps.tcpParseMss_cases seg.options.length seg.options TCP_MSS with he | he
    · rw [he]
      decide
    · exact he
  refine ⟨hm.1, hm.2, ?_⟩
  unfold tcpListenPcb tcpParseopt
  simp only [hp]
  rfl

end Rudp
